import UtilityCss.Proofs.Markup.Head
import UtilityCss.Proofs.Text.Search
import Mathlib.Data.List.Induction

/-!
# Styles put in again

Styles that are put into a document a second time find the document as they left it. A block that was
put before `</head>` is found again as a whole, and nothing else is (`finds_insert`), so it is cut out
and the document is as it was before (`cut_insert`): however often styles are put into a document, it
ends with the last of them in one block (`foldl_inlineStyles`).

A link is added once (`linkStylesheet_linkStylesheet`), and it stays when others are added, which go to
the same place (`linkStylesheet_keeps`): what is put before `</head>` could part the address of a link
only if the address held that tag.
-/

namespace UtilityCss.Markup
open Text

variable {html css last : String} {csses : List String} {p s t before rest : List Char}

/-! ### Tags -/

/-- A tag in lower case: no `<` stands in it but the one with which it begins. -/
structure IsTag (p : List Char) : Prop where
  opens : p = '<' :: p.tail
  once  : Misses p.tail '<'
  lower : IsLower p

theorem isTag_headClose : IsTag headClose := ⟨by decide, by decide, by decide⟩

theorem isTag_styleOpen : IsTag styleOpen.toList := ⟨by decide, by decide, by decide⟩

theorem isTag_styleClose : IsTag styleClose.toList := ⟨by decide, by decide, by decide⟩

namespace IsTag

/-- A tag that is not in a text does not begin there before `<` either. -/
theorem dropPrefixLower?_append (hp : IsTag p) (hs : Lacks p s) (hne : s ≠ []) (t : List Char) :
    dropPrefixLower? p (s ++ '<' :: t) = none := by
  obtain ⟨b, s, rfl⟩ := List.exists_cons_of_ne_nil hne
  have hhead := (lacks_cons.1 hs).1
  rw [hp.opens] at hhead ⊢
  exact (dropPrefixLower?_cons_append_cons hp.once b).2 hhead

/-- Behind a text without it, a tag is the first one. -/
theorem afterLower?_append (hp : IsTag p) (hs : Lacks p s) (t : List Char) :
    afterLower? p (s ++ p ++ t) = some t := by
  have hself := dropPrefixLower?_self_append hp.lower t
  rw [hp.opens] at hs hself ⊢
  rw [List.append_assoc, List.cons_append, afterLower?_append_cons hp.once hs, afterLower?]
  rw [List.cons_append] at hself
  rw [hself]

end IsTag

/-! ### Texts put before the end of the head -/

theorem insertInHead?_eq_none_iff {text : String} :
    insertInHead? text s = none ↔ Lacks headClose s := by
  rw [insertInHead?, Option.map_eq_none_iff, splitBeforeLower?_eq_none_iff]

/-- A text is put before the first `</head>`. -/
theorem exists_isFirst_of_insertInHead? {text r : String} (h : insertInHead? text s = some r) :
    ∃ before rest, s = before ++ rest ∧ IsFirst headClose before rest ∧
      r = String.ofList (before ++ text.toList ++ rest) := by
  obtain ⟨⟨before, rest⟩, hsplit, rfl⟩ := Option.map_eq_some_iff.1 h
  refine ⟨before, rest, splitBeforeLower?_eq hsplit, isFirst_of_splitBeforeLower? hsplit, ?_⟩
  rw [String.ofList_append, String.ofList_append, String.ofList_toList]

/-! ### Blocks of styles -/

/-- The block in which styles are put into a document. -/
def block (css : String) : String := styleOpen ++ "\n" ++ css ++ "\n" ++ styleClose ++ "\n"

theorem toList_block (css : String) : (block css).toList =
    styleOpen.toList ++ (('\n' :: (css.toList ++ ['\n'])) ++ styleClose.toList ++ ['\n']) := by
  simp [block]

/-- A block ends at its own closing tag, if there is none in its styles. -/
theorem rest?_block (hcss : Lacks styleClose.toList css.toList) (rest : List Char) :
    styleBlock.rest? ((block css).toList ++ rest) = some rest := by
  have hbody : Lacks styleClose.toList ('\n' :: (css.toList ++ ['\n'])) := by
    rw [isTag_styleClose.opens] at hcss ⊢
    exact (lacks_cons_of_misses (by decide)).2 ((lacks_append_cons (by decide)).2
      ⟨hcss, (lacks_cons_of_misses (by decide)).2 (lacks_nil _ _)⟩)
  have hafter : afterStyleClose?
      (('\n' :: (css.toList ++ ['\n'])) ++ styleClose.toList ++ ('\n' :: rest)) = some rest := by
    rw [afterStyleClose?, isTag_styleClose.afterLower?_append hbody]
    rfl
  have hopen := dropPrefixLower?_self_append isTag_styleOpen.lower
    (('\n' :: (css.toList ++ ['\n'])) ++ styleClose.toList ++ ('\n' :: rest))
  show (dropPrefixLower? _ _).bind _ = _
  rw [toList_block, List.append_assoc, List.append_assoc _ ['\n'] rest]
  exact (congrArg (Option.bind · afterStyleClose?) hopen).trans hafter

/-- No block begins in a text without the opening tag of one. -/
theorem skips_of_lacks (hs : Lacks styleOpen.toList s) (t : List Char) :
    styleBlock.Skips s ('<' :: t) := by
  intro r hr hne
  have hnone := isTag_styleOpen.dropPrefixLower?_append (hs.of_infix hr.isInfix) hne t
  show (dropPrefixLower? _ _).bind _ = none
  rw [hnone]
  rfl

theorem skips_nil_of_lacks (hs : Lacks styleOpen.toList s) : styleBlock.Skips s [] := by
  intro r hr _
  show (dropPrefixLower? _ _).bind _ = none
  rw [List.append_nil, hs r hr]
  rfl

theorem cut_of_lacks (hs : Lacks styleOpen.toList s) : styleBlock.cut s = s := by
  have hcut := Passage.cut_append (skips_nil_of_lacks hs)
  rwa [List.append_nil, Passage.cut, List.append_nil] at hcut

theorem finds_of_lacks (hs : Lacks styleOpen.toList s) : styleBlock.finds s = [] := by
  have hfinds := Passage.finds_append (skips_nil_of_lacks hs)
  rwa [List.append_nil, Passage.finds] at hfinds

section Insert

variable (hopen : Lacks styleOpen.toList (before ++ rest))
include hopen

theorem skips_insert (css : String) : styleBlock.Skips before ((block css).toList ++ rest) := by
  have hblock : (block css).toList ++ rest = '<' :: ((block css).toList ++ rest).tail := by
    rw [toList_block, isTag_styleOpen.opens]
    rfl
  rw [hblock]
  exact skips_of_lacks (hopen.of_infix (List.prefix_append before rest).isInfix) _

variable (hcss : Lacks styleClose.toList css.toList)
include hcss

/-- A block that was put into a document is cut out again. -/
theorem cut_insert : styleBlock.cut (before ++ (block css).toList ++ rest) = before ++ rest := by
  rw [List.append_assoc, Passage.cut_append (skips_insert hopen css),
    Passage.cut_of_rest? (rest?_block hcss rest),
    cut_of_lacks (hopen.of_infix (List.suffix_append before rest).isInfix)]

/-- A block that was put into a document is the only one there. -/
theorem finds_insert : styleBlock.finds (before ++ (block css).toList ++ rest) =
    [((block css).toList, rest)] := by
  rw [List.append_assoc, Passage.finds_append (skips_insert hopen css),
    Passage.finds_of_rest? (rest?_block hcss rest),
    finds_of_lacks (hopen.of_infix (List.suffix_append before rest).isInfix)]

end Insert

/-! ### Styles in one block -/

section Inline

variable (hopen : Lacks styleOpen.toList html.toList)
include hopen

theorem inlineStyles_of_lacks (css : String) :
    inlineStyles html css = (insertInHead? (block css) html.toList).getD html := by
  rw [inlineStyles, cut_of_lacks hopen]
  rfl

theorem inlineStyles_eq_self (hhead : Lacks headClose html.toList) (css : String) :
    inlineStyles html css = html := by
  rw [inlineStyles_of_lacks hopen, insertInHead?_eq_none_iff.2 hhead]
  rfl

/-- Styles in a block stand before the first `</head>`. -/
theorem exists_isFirst_of_inlineStyles (hhead : ¬ Lacks headClose html.toList) (css : String) :
    ∃ before rest, html.toList = before ++ rest ∧ IsFirst headClose before rest ∧
      inlineStyles html css = String.ofList (before ++ (block css).toList ++ rest) := by
  cases hinsert : insertInHead? (block css) html.toList with
  | none => exact absurd (insertInHead?_eq_none_iff.1 hinsert) hhead
  | some result =>
      obtain ⟨before, rest, hhtml, hfirst, rfl⟩ := exists_isFirst_of_insertInHead? hinsert
      refine ⟨before, rest, hhtml, hfirst, ?_⟩
      rw [inlineStyles_of_lacks hopen, hinsert]
      rfl

/-- Styles take the place of those that were put into a document before. -/
theorem inlineStyles_inlineStyles (hcss : Lacks styleClose.toList css.toList) (last : String) :
    inlineStyles (inlineStyles html css) last = inlineStyles html last := by
  by_cases hhead : Lacks headClose html.toList
  · rw [inlineStyles_eq_self hopen hhead css]
  · obtain ⟨before, rest, hhtml, hfirst, hresult⟩ := exists_isFirst_of_inlineStyles hopen hhead css
    have hcut : styleBlock.cut (inlineStyles html css).toList = html.toList := by
      rw [hresult, String.toList_ofList, hhtml]
      exact cut_insert (hhtml ▸ hopen) hcss
    have hsome : (insertInHead? (block last) html.toList).isSome := by
      rw [Option.isSome_iff_ne_none]
      exact mt insertInHead?_eq_none_iff.1 hhead
    obtain ⟨result, hinsert⟩ := Option.isSome_iff_exists.1 hsome
    have hagain : inlineStyles (inlineStyles html css) last =
        (insertInHead? (block last) (styleBlock.cut (inlineStyles html css).toList)).getD
          (inlineStyles html css) := rfl
    rw [hagain, hcut, inlineStyles_of_lacks hopen last, hinsert]
    rfl

/-- However often styles were put into a document, the last ones stand there as if they were the
first. -/
theorem inlineStyles_foldl (hcsses : ∀ css ∈ csses, Lacks styleClose.toList css.toList)
    (last : String) : inlineStyles (csses.foldl inlineStyles html) last = inlineStyles html last := by
  induction csses using List.reverseRec generalizing last with
  | nil => rfl
  | append_singleton csses css ih =>
      obtain ⟨hcsses, hcss⟩ := List.forall_mem_append.1 hcsses
      rw [List.foldl_append, List.foldl_cons, List.foldl_nil, ih hcsses,
        inlineStyles_inlineStyles hopen (hcss css List.mem_cons_self)]

end Inline

/-- Styles that are put into a document again and again are there once: as in a document that has
never had any, the last of them stand in one block before the first `</head>`, and without that block
the document is what it was. A document without `</head>` is left as it is. -/
theorem foldl_inlineStyles (hopen : Lacks styleOpen.toList html.toList)
    (hcsses : ∀ css ∈ csses ++ [last], Lacks styleClose.toList css.toList) :
    (csses ++ [last]).foldl inlineStyles html = inlineStyles html last ∧
      (Lacks headClose html.toList → inlineStyles html last = html) ∧
      (¬ Lacks headClose html.toList → ∃ before rest,
        html.toList = before ++ rest ∧ IsFirst headClose before rest ∧
        (inlineStyles html last).toList = before ++ (block last).toList ++ rest ∧
        styleBlock.finds (inlineStyles html last).toList = [((block last).toList, rest)] ∧
        styleBlock.cut (inlineStyles html last).toList = html.toList) := by
  obtain ⟨hcsses, hlast⟩ := List.forall_mem_append.1 hcsses
  refine ⟨?_, fun hhead => inlineStyles_eq_self hopen hhead last, fun hhead => ?_⟩
  · rw [List.foldl_append, List.foldl_cons, List.foldl_nil, inlineStyles_foldl hopen hcsses]
  · obtain ⟨before, rest, hhtml, hfirst, hresult⟩ := exists_isFirst_of_inlineStyles hopen hhead last
    have hlast := hlast last List.mem_cons_self
    have htext : (inlineStyles html last).toList = before ++ (block last).toList ++ rest := by
      rw [hresult, String.toList_ofList]
    rw [hhtml] at hopen
    refine ⟨before, rest, hhtml, hfirst, htext, ?_, ?_⟩
    · rw [htext, finds_insert hopen hlast]
    · rw [htext, cut_insert hopen hlast, hhtml]

/-- Styles that mention the end of a head, and styles that open a block themselves. -/
theorem foldl_inlineStyles_misleading :
    ["</head>", "<style data-valcss>"].foldl inlineStyles "<p></HEAD></head>" =
        "<p><style data-valcss>\n<style data-valcss>\n</style>\n</HEAD></head>" ∧
      ∃ rest, styleBlock.finds
          "<p><style data-valcss>\n<style data-valcss>\n</style>\n</HEAD></head>".toList =
        [((block "<style data-valcss>").toList, rest)] := by
  have hopen : Lacks styleOpen.toList "<p></HEAD></head>".toList := by decide
  have hcsses : ∀ css ∈ ["</head>"] ++ ["<style data-valcss>"],
      Lacks styleClose.toList css.toList := by decide
  obtain ⟨hlast, -, hhead⟩ := foldl_inlineStyles hopen hcsses
  have hresult : inlineStyles "<p></HEAD></head>" "<style data-valcss>" =
      "<p><style data-valcss>\n<style data-valcss>\n</style>\n</HEAD></head>" := by
    rw [inlineStyles_of_lacks hopen]
    rfl
  obtain ⟨_, rest, -, -, -, hfinds, -⟩ := hhead (by decide)
  exact ⟨hlast.trans hresult, rest, hresult ▸ hfinds⟩

/-! ### Links -/

variable {href other : String}

/-- What a document has in it that refers to an address. -/
def reference (href : String) : String := "href=\"" ++ href ++ "\""

theorem refersTo_iff : refersTo html href ↔ (reference href).toList <:+: html.toList := occurs_iff

/-- A document refers to an address or has no end of a head, or it gets a link before that. -/
theorem linkStylesheet_cases (html href : String) :
    (refersTo html href ∨ Lacks headClose html.toList) ∧ linkStylesheet html href = html ∨
      ∃ before tag rest, html.toList = before ++ rest ∧ IsFirst headClose before rest ∧
        (reference href).toList <:+: tag ∧
        (linkStylesheet html href).toList = before ++ tag ++ rest := by
  unfold linkStylesheet
  by_cases hrefers : refersTo html href
  · rw [if_pos hrefers]
    exact .inl ⟨.inl hrefers, rfl⟩
  rw [if_neg hrefers]
  cases hinsert : insertInHead? _ html.toList with
  | none => exact .inl ⟨.inr (insertInHead?_eq_none_iff.1 hinsert), rfl⟩
  | some result =>
      obtain ⟨before, rest, hhtml, hfirst, rfl⟩ := exists_isFirst_of_insertInHead? hinsert
      refine .inr ⟨before, _, rest, hhtml, hfirst, ?_, String.toList_ofList⟩
      exact ⟨"<link rel=\"stylesheet\" ".toList, ">\n".toList, by simp [reference]⟩

theorem linkStylesheet_eq_self (h : refersTo html href ∨ Lacks headClose html.toList) :
    linkStylesheet html href = html := by
  unfold linkStylesheet
  split
  · rfl
  · rename_i hrefers
    rw [insertInHead?_eq_none_iff.2 (h.resolve_left hrefers)]
    rfl

/-- A document that keeps its text refers to the address or has no end of a head. -/
theorem refersTo_or_lacks_of_linkStylesheet (h : linkStylesheet html href = html) :
    refersTo html href ∨ Lacks headClose html.toList := by
  rcases linkStylesheet_cases html href with
    ⟨hself, -⟩ | ⟨before, tag, rest, hhtml, -, htag, hresult⟩
  · exact hself
  · rw [h, hhtml, List.append_assoc, List.append_cancel_left_eq, List.self_eq_append_left] at hresult
    rw [hresult] at htag
    have hnil := List.infix_nil.1 htag
    simp [reference] at hnil

/-- A link is added once. -/
theorem linkStylesheet_linkStylesheet (html href : String) :
    linkStylesheet (linkStylesheet html href) href = linkStylesheet html href := by
  rcases linkStylesheet_cases html href with ⟨-, he⟩ | ⟨before, tag, rest, -, -, htag, hresult⟩
  · rw [he, he]
  · refine linkStylesheet_eq_self (.inl (refersTo_iff.2 ?_))
    rw [hresult]
    exact htag.trans ⟨before, rest, rfl⟩

theorem lacks_reference (hhref : Lacks headClose href.toList) :
    Lacks headClose (reference href).toList := by
  have htext : (reference href).toList = "href=".toList ++ '"' :: (href.toList ++ '"' :: []) := by
    simp [reference]
  have hquote : Misses headClose '"' := by decide
  rw [isTag_headClose.opens] at hhref hquote ⊢
  have hlater := fun a ha => hquote a (List.mem_cons_of_mem _ ha)
  rw [htext, lacks_append_cons hlater, lacks_cons_of_misses hquote, lacks_append_cons hlater,
    lacks_cons_of_misses hquote]
  exact ⟨by decide, hhref, lacks_nil _ _⟩

/-- A reference is not cut in two by what is put before the end of a head. -/
theorem infix_insert (hfirst : IsFirst headClose before rest) (hhref : Lacks headClose href.toList)
    (tag : List Char) (h : (reference href).toList <:+: before ++ rest) :
    (reference href).toList <:+: before ++ tag ++ rest := by
  obtain ⟨l, l', h⟩ := h
  rcases List.append_eq_append_iff.1 h with ⟨m, rfl, -⟩ | ⟨m, hm, rfl⟩
  · -- it stands before the cut
    exact ⟨l, m ++ tag ++ rest, by simp⟩
  rcases List.append_eq_append_iff.1 hm with ⟨m', rfl, hcut⟩ | ⟨m', rfl, rfl⟩
  · rcases List.eq_nil_or_concat m with rfl | ⟨w, c, rfl⟩
    · rw [List.append_nil] at hcut
      exact ⟨l, tag ++ l', by simp [hcut]⟩
    · -- what a cut leaves of a reference ends in a quotation mark, over which no tag reaches
      rw [List.concat_eq_append] at hcut
      have hnone := lacks_reference hhref (w ++ [c]) ⟨m', hcut.symm⟩
      have hmark : (reference href).toList = ("href=\"" ++ href).toList ++ ['"'] := by simp [reference]
      rw [hmark, ← List.append_assoc] at hcut
      have hc := (List.singleton_inj.1 (List.append_inj_right' hcut rfl)).symm
      have hquote : Misses headClose '"' := by decide
      have hstands := hfirst.stands
      rw [List.concat_eq_append, List.append_assoc, hc, List.singleton_append,
        dropPrefixLower?_append_cons hquote] at hstands
      rw [hc, ← Option.not_isSome_iff_eq_none, dropPrefixLower?_append_cons hquote] at hnone
      exact absurd hstands hnone
  · -- it stands behind the cut
    exact ⟨before ++ tag ++ m', l', by simp⟩

/-- A link is not lost when another one is added. -/
theorem linkStylesheet_keeps (hhref : Lacks headClose href.toList)
    (h : linkStylesheet html href = html) (other : String) :
    linkStylesheet (linkStylesheet html other) href = linkStylesheet html other := by
  rcases linkStylesheet_cases html other with
    ⟨-, he⟩ | ⟨before, tag, rest, hhtml, hfirst, -, hresult⟩
  · rw [he, h]
  · have hrefers := (refersTo_or_lacks_of_linkStylesheet h).resolve_right (hhtml ▸ hfirst.not_lacks)
    rw [refersTo_iff, hhtml] at hrefers
    refine linkStylesheet_eq_self (.inl (refersTo_iff.2 ?_))
    rw [hresult]
    exact infix_insert hfirst hhref tag hrefers

end UtilityCss.Markup
