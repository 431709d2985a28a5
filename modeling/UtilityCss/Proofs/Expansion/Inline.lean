import UtilityCss.Proofs.Expansion.Registration
import UtilityCss.Proofs.Math.Words
import UtilityCss.Proofs.Token.Modifier

/-!
# Utilities in place

The parts of a utility are the words of its text. A word stands apart from what is around it
(`Text.exists_apart_of_mem_words`), and a text that takes its place puts its own words there
(`Text.words_between`). If the word is the name of another composite utility and the text is that of
this utility, nothing leads where nothing led before (`leads_of_composes_inline`), so a graph without
cycles stays one; and the texts of the parts are joined to the same text whether they are joined at
once or the inner ones first (`joined?_append_joined?`). So every token compiles to the same text
(`inline_keeps_css`).
-/

namespace UtilityCss

/-! ### Words in a text -/

namespace Text

variable {s t w : List Char} {before after : String}

/-- No word goes on behind the text. -/
def ClosesWord (s : String) : Prop := ∀ c ∈ s.toList.getLast?, isBlank c

/-- No word goes on from before the text. -/
def OpensWord (s : String) : Prop := ∀ c ∈ s.toList.head?, isBlank c

instance : DecidablePred ClosesWord := fun s =>
  decidable_of_iff (s.toList.getLast?.all isBlank) (Option.all_eq_true isBlank s.toList.getLast?)

instance : DecidablePred OpensWord := fun s =>
  decidable_of_iff (s.toList.head?.all isBlank) (Option.all_eq_true isBlank s.toList.head?)

/-- The text `s` holds `w` between `before` and `after`, apart from both. -/
structure Apart (before w after s : String) : Prop where
  eq     : s = before ++ w ++ after
  closes : ClosesWord before
  opens  : OpensWord after

theorem wordsFrom_append_of_closed (h : ∀ c ∈ s.getLast?, isBlank c) (t : List Char) :
    wordsFrom [] (s ++ t) = wordsFrom [] s ++ wordsFrom [] t := by
  rcases List.eq_nil_or_concat s with rfl | ⟨s, c, rfl⟩
  · rfl
  · have hc : isBlank c := h c (by simp)
    rw [List.concat_eq_append, List.append_assoc, List.singleton_append,
      Math.wordsFrom_append_blank hc, Math.wordsFrom_append_blank hc]
    simp [wordsFrom]

theorem wordsFrom_append_of_open (h : ∀ c ∈ t.head?, isBlank c) (w s : List Char) :
    wordsFrom w (s ++ t) = wordsFrom w s ++ wordsFrom [] t := by
  cases t with
  | nil => simp [wordsFrom]
  | cons c t =>
      have hc : isBlank c := h c rfl
      rw [Math.wordsFrom_append_blank hc, Math.wordsFrom_blank hc]
      rfl

/-- The words of a text that stands apart from what is around it. -/
theorem words_between (hbefore : ClosesWord before) (hafter : OpensWord after) (s : String) :
    words (before ++ s ++ after) = words before ++ words s ++ words after := by
  simp only [words, String.toList_append]
  rw [wordsFrom_append_of_open hafter, wordsFrom_append_of_closed hbefore, List.map_append,
    List.map_append]

theorem words_of_not_isBlank {s : String} (hs : s ≠ "") (h : ∀ c ∈ s.toList, isBlank c = false) :
    words s = [s] := by
  have hne : s.toList ≠ [] := fun e => hs (String.toList_inj.1 e)
  rw [words, Math.wordsFrom_of_not_isBlank h, List.append_nil, Math.wordsFrom_nil,
    if_neg (by simpa using hne), List.reverse_reverse, List.map_singleton, String.ofList_toList]

theorem of_mem_wordsFrom_nil {v : List Char} (h : v ∈ wordsFrom w []) : v ≠ [] ∧ v = w.reverse := by
  rw [Math.wordsFrom_nil] at h
  split at h
  · cases h
  · rename_i hne
    rw [List.mem_singleton.1 h]
    exact ⟨by simpa using hne, rfl⟩

theorem exists_of_mem_wordsFrom {v : List Char} (h : v ∈ wordsFrom w s) :
    v ≠ [] ∧ ∃ l r, w.reverse ++ s = l ++ v ++ r ∧ (∀ c ∈ l.getLast?, isBlank c) ∧
      ∀ c ∈ r.head?, isBlank c := by
  induction s generalizing w with
  | nil =>
      obtain ⟨hne, rfl⟩ := of_mem_wordsFrom_nil h
      exact ⟨hne, [], [], rfl, nofun, nofun⟩
  | cons c s ih =>
      by_cases hc : isBlank c
      · rw [Math.wordsFrom_blank hc] at h
        rcases List.mem_append.1 h with h | h
        · obtain ⟨hne, rfl⟩ := of_mem_wordsFrom_nil h
          exact ⟨hne, [], c :: s, rfl, nofun, by simpa using hc⟩
        · obtain ⟨hne, l, r, hs, hl, hr⟩ := ih h
          rw [List.reverse_nil, List.nil_append] at hs
          refine ⟨hne, w.reverse ++ c :: l, r, by simp [hs], ?_, hr⟩
          rw [List.getLast?_append_cons, List.getLast?_cons]
          cases hlast : l.getLast? with
          | none => simpa using hc
          | some d => simpa using hl d hlast
      · have hc : isBlank c = false := by simpa using hc
        rw [Math.wordsFrom_cons hc] at h
        simpa using ih h

/-- Every word of a text stands in it apart. -/
theorem exists_apart_of_mem_words {w s : String} (h : w ∈ words s) :
    w ≠ "" ∧ ∃ before after, Apart before w after s := by
  obtain ⟨v, hv, rfl⟩ := List.mem_map.1 h
  obtain ⟨hne, l, r, e, hl, hr⟩ := exists_of_mem_wordsFrom hv
  refine ⟨fun e => hne (by simpa using congrArg String.toList e), .ofList l, .ofList r, ?_, ?_, ?_⟩
  · rw [← String.toList_inj]
    simpa using e
  · simpa [ClosesWord] using hl
  · simpa [OpensWord] using hr

/-! ### Texts of texts -/

/-- Texts with spaces between, if there are any. -/
def joined? (l : List String) : Option String := if l = [] then none else some (" ".intercalate l)

/-- It does not matter whether some of the texts are joined first. -/
theorem joined?_append_joined? (l m r : List String) :
    joined? (l ++ (joined? m).toList ++ r) = joined? (l ++ m ++ r) := by
  by_cases hm : m = []
  · subst hm
    rfl
  · have hinner : " ".intercalate (" ".intercalate m :: r) = " ".intercalate (m ++ r) := by
      by_cases hr : r = []
      · subst hr
        rw [String.intercalate_singleton, List.append_nil]
      · rw [String.intercalate_cons_of_ne_nil hr, String.intercalate_append_of_ne_nil hm hr]
    have houter : " ".intercalate (l ++ " ".intercalate m :: r) = " ".intercalate (l ++ (m ++ r)) := by
      by_cases hl : l = []
      · subst hl
        exact hinner
      · rw [String.intercalate_append_of_ne_nil hl (List.cons_ne_nil _ _), hinner,
          String.intercalate_append_of_ne_nil hl (by simp [hm])]
    simp [joined?, hm, houter]

end Text

namespace Token

/-- A token that is a name alone: one word, without modifiers and without a mark. -/
structure IsName (s : String) : Prop where
  ne_empty  : s ≠ ""
  not_blank : ∀ c ∈ s.toList, Text.isBlank c = false
  no_colon  : ':' ∉ s.toList
  no_mark   : s.toList.head? ≠ some '!'

namespace IsName

variable {s : String} {t : BreakpointTable}

theorem isBase (h : IsName s) : IsBase s := ⟨h.no_colon, h.no_mark⟩

theorem lastName (h : IsName s) : Token.lastName s = s := by
  have hread : Token.lastName (modified [] false s) = s :=
    lastName_modified (List.forall_mem_nil _) h.isBase
  rwa [modified_nil] at hread

theorem hasVariant (h : IsName s) : (parse t s).1.hasVariant = false := by
  have hread : parse t (modified [] false s) = _ := parse_modified (List.forall_mem_nil _) h.isBase rfl
  rw [modified_nil] at hread
  rw [hread]
  rfl

end IsName

end Token

namespace Compiler

variable {c : Compiler} {token name u v before after text : String} {tokens : List String}
  {found : List Diagnostic} {variants variants' : Variants}

/-! ### Texts of parts -/

/-- The declarations of the tokens that have some. -/
def textsOf (c : Compiler) (tokens : List String) : List String :=
  tokens.filterMap fun part => (c.compile part .declarations).css

theorem textsOf_append (l r : List String) : c.textsOf (l ++ r) = c.textsOf l ++ c.textsOf r :=
  List.filterMap_append

theorem textsOf_singleton (token : String) :
    c.textsOf [token] = (c.compile token .declarations).css.toList := by
  rw [textsOf, List.filterMap_cons, List.filterMap_nil]
  cases (c.compile token .declarations).css <;> rfl

/-- Without cycles the text of a utility is that of its parts. -/
theorem css_of_parts (hc : c.Acyclic) (h : c.request token = .parts name tokens found) :
    (c.compile token .declarations).css = Text.joined? (c.textsOf tokens) := by
  rw [compile_parts hc h, Text.joined?, ← textsOf]
  by_cases hn : c.textsOf tokens = []
  · rw [if_pos hn, if_pos hn]
  · rw [if_neg hn, if_neg hn]

/-- A token that may not use a utility has no text. -/
theorem css_of_not_admits {ut : Utility} (hu : c.registry.get? (Token.lastName token) = some ut)
    (ha : ut.admits (Token.parse c.breakpoints token).1 = false) :
    (c.compile token .declarations).css = none := by
  show (c.declarationsIn [] token).css = none
  rw [declarationsIn_settled (request_of_not_admits hu (Bool.eq_false_iff.1 ha))]

/-- A name alone may use its utility. -/
theorem request_of_isName (hname : Token.IsName v)
    (hv : c.registry.get? v = some ⟨.compose text, variants⟩) :
    c.request v = .parts v (Text.words text) (Token.parse c.breakpoints v).2 := by
  have hadmits : Utility.admits ⟨.compose text, variants⟩ (Token.parse c.breakpoints v).1 := by
    simp [Utility.admits, hname.hasVariant]
  have hrequest := request_of_compose (hname.lastName.symm ▸ hv) rfl hadmits
  rwa [hname.lastName] at hrequest

/-! ### A utility in place of its name -/

section Inline

variable (hu : c.registry.get? u = some ⟨.compose (before ++ v ++ after), variants⟩)
  (hv : c.registry.get? v = some ⟨.compose text, variants'⟩)
  (hbefore : Text.ClosesWord before) (hafter : Text.OpensWord after) (hname : Token.IsName v)

include hbefore hafter hname in
theorem words_of_name : Text.words (before ++ v ++ after) =
    Text.words before ++ [v] ++ Text.words after := by
  rw [Text.words_between hbefore hafter, Text.words_of_not_isBlank hname.ne_empty hname.not_blank]

include hu hv hbefore hafter hname

theorem composes_of_word : c.Composes u v := by
  refine ⟨⟨_, hu, v, ?_, hname.lastName⟩, Registry.mem_names_of_get? hv⟩
  rw [Styles.parts, words_of_name hbefore hafter hname]
  simp

/-- What is composed with the text in place was composed before, or by way of `v`. -/
theorem leads_of_composes_inline {x y : String}
    (h : (c.register [(u, .compose (before ++ text ++ after))] variants).Composes x y) :
    c.Leads x y := by
  obtain ⟨⟨ut, hget, part, hpart, rfl⟩, hreg⟩ := h
  rw [names_register (Registry.mem_names_of_get? hu)] at hreg
  by_cases hx : x = u
  · subst hx
    rw [get?_register_self] at hget
    cases hget
    rw [Styles.parts, Text.words_between hbefore hafter, List.mem_append, List.mem_append] at hpart
    have houter : part ∈ Text.words before ∨ part ∈ Text.words after →
        c.Leads x (Token.lastName part) := by
      intro hp
      refine .single ⟨⟨_, hu, part, ?_, rfl⟩, hreg⟩
      rw [Styles.parts, words_of_name hbefore hafter hname]
      rcases hp with hp | hp <;> simp [hp]
    rcases hpart with (hp | hp) | hp
    · exact houter (.inl hp)
    · exact .tail (.single (composes_of_word hu hv hbefore hafter hname)) ⟨⟨_, hv, part, hp, rfl⟩, hreg⟩
    · exact houter (.inr hp)
  · rw [get?_register_of_ne hx] at hget
    exact .single ⟨⟨ut, hget, part, hpart, rfl⟩, hreg⟩

theorem acyclic_inline (hc : c.Acyclic) :
    (c.register [(u, .compose (before ++ text ++ after))] variants).Acyclic :=
  fun n hn => hc n (Relation.TransGen.lift' id
    (fun _ _ => leads_of_composes_inline hu hv hbefore hafter hname) n n hn)

/-! What follows asks of the compiler behind the registration only what its tokens request there. -/

variable {c' : Compiler} (hc : c.Acyclic) (hc' : c'.Acyclic)
  (hbreakpoints : c'.breakpoints = c.breakpoints)
  (hu' : c'.registry.get? u = some ⟨.compose (before ++ text ++ after), variants⟩)
  (hv' : c'.registry.get? v = some ⟨.compose text, variants'⟩)
  (hrequest : ∀ token, Token.lastName token ≠ u → c'.request token = c.request token)

include hc hc' hbreakpoints hu' hv'

omit hv in
/-- If the parts of `u` keep their declarations, so does a token that may use it. -/
theorem css_of_parts_inline (hx : Token.lastName token = u)
    (ha : Utility.admits ⟨.compose (before ++ v ++ after), variants⟩
      (Token.parse c.breakpoints token).1)
    (hparts : ∀ part ∈ Text.words (before ++ v ++ after),
      (c.compile part .declarations).css = (c'.compile part .declarations).css) :
    (c.compile token .declarations).css = (c'.compile token .declarations).css := by
  subst hx
  have hwords := words_of_name hbefore hafter hname
  have htexts : c.textsOf (Text.words (before ++ v ++ after)) =
      c'.textsOf (Text.words (before ++ v ++ after)) := List.filterMap_congr hparts
  have hinner : (c'.compile v .declarations).css = Text.joined? (c'.textsOf (Text.words text)) :=
    css_of_parts hc' (request_of_isName hname hv')
  have ha' : Utility.admits ⟨.compose (before ++ text ++ after), variants⟩
      (Token.parse c'.breakpoints token).1 := by rw [hbreakpoints]; exact ha
  calc (c.compile token .declarations).css
      = Text.joined? (c.textsOf (Text.words (before ++ v ++ after))) :=
        css_of_parts hc (request_of_compose hu rfl ha)
    _ = Text.joined? (c'.textsOf (Text.words before) ++
          (Text.joined? (c'.textsOf (Text.words text))).toList ++
            c'.textsOf (Text.words after)) := by
        rw [htexts, hwords, textsOf_append, textsOf_append, textsOf_singleton, hinner]
    _ = Text.joined? (c'.textsOf (Text.words (before ++ text ++ after))) := by
        rw [Text.joined?_append_joined?, Text.words_between hbefore hafter, textsOf_append,
          textsOf_append]
    _ = (c'.compile token .declarations).css :=
        (css_of_parts hc' (request_of_compose hu' rfl ha')).symm

include hrequest

omit hv in
/-- A token has the same declarations before and after. -/
theorem css_inline (token : String) :
    (c.compile token .declarations).css = (c'.compile token .declarations).css := by
  obtain ⟨r, hr⟩ : ∃ r, c.Unfolds token r :=
    ⟨_, unfolds_declarationsIn hc [] token (above_nil c token)⟩
  -- along the recursion over parts in `c`: those of `v` stand in `u` only behind the registration
  induction hr with
  | @settled token r h =>
      by_cases hx : Token.lastName token = u
      · subst hx
        cases ha : Utility.admits ⟨.compose (before ++ v ++ after), variants⟩
            (Token.parse c.breakpoints token).1 with
        | true => cases h.symm.trans (request_of_compose hu rfl ha)
        | false =>
            have ha' : Utility.admits ⟨.compose (before ++ text ++ after), variants⟩
                (Token.parse c'.breakpoints token).1 = false := by rw [hbreakpoints]; exact ha
            rw [css_of_not_admits hu ha, css_of_not_admits hu' ha']
      · have h' : c'.request token = .settled r := (hrequest token hx).trans h
        exact congrArg Compiled.css ((declarationsIn_settled h).trans (declarationsIn_settled h').symm)
  | @parts token n tokens found results h _ ih =>
      by_cases hx : Token.lastName token = u
      · obtain ⟨ut, outer, hget, hs, ha, -, rfl, -⟩ := compose_of_request h
        rw [hx, hu] at hget
        cases hget
        cases hs
        exact css_of_parts_inline hu hbefore hafter hname hc hc' hbreakpoints hu' hv' hx ha ih
      · have h' : c'.request token = .parts n tokens found := (hrequest token hx).trans h
        rw [css_of_parts hc h, css_of_parts hc' h']
        exact congrArg Text.joined? (List.filterMap_congr ih)

end Inline

/-- **A utility may stand in place of its name.**  Let no utility lead back to itself, and let a part of
the utility `u` be the name `v` of another composite utility, without modifiers and without a mark.
Then the part stands somewhere in the text of `u`, and wherever it does, the text of `v` may take its
place: there is still no cycle, and every token compiles to the same text in either mode. -/
theorem inline_keeps_css (c : Compiler) (hc : c.Acyclic) {u v outer text : String}
    {variants variants' : Variants}
    (hu : c.registry.get? u = some ⟨.compose outer, variants⟩)
    (hv : c.registry.get? v = some ⟨.compose text, variants'⟩)
    (hpart : v ∈ Text.words outer) (hcolon : ':' ∉ v.toList) (hmark : v.toList.head? ≠ some '!') :
    (∃ before after, Text.Apart before v after outer) ∧
    ∀ before after, Text.Apart before v after outer →
      let c' := c.register [(u, .compose (before ++ text ++ after))] variants
      c'.Acyclic ∧ ∀ token mode, (c'.compile token mode).css = (c.compile token mode).css := by
  obtain ⟨hne, hplace⟩ := Text.exists_apart_of_mem_words hpart
  have hname : Token.IsName v := ⟨hne, Text.not_isBlank_of_mem_words hpart, hcolon, hmark⟩
  refine ⟨hplace, ?_⟩
  rintro before after ⟨rfl, hbefore, hafter⟩
  have hacyclic := acyclic_inline hu hv hbefore hafter hname hc
  have hother : v ≠ u := by
    rintro rfl
    exact hc v (.single (composes_of_word hu hv hbefore hafter hname))
  refine ⟨hacyclic, fun token mode => ?_⟩
  have hcss := css_inline hu hbefore hafter hname hc hacyclic rfl get?_register_self
    ((get?_register_of_ne hother).trans hv) (fun _ hx => request_register hx) token
  rw [compile_css, compile_css]
  exact congrArg (Option.map _) hcss.symm

/-- Utilities with one that is mentioned by name, with a modifier and with a mark, and that has parts
which come to nothing. -/
def stacked : Compiler :=
  (default.register [("card", .compose " box nope "), ("box", .compose "block m-[;] md:nope flex")]
    .none).register [("page", .compose "card md:card !box\tp-[1px]")] .all

theorem acyclic_stacked : stacked.Acyclic :=
  acyclic_of_rank
    (fun n => if n = "page" then 3 else if n = "card" then 2 else if n = "box" then 1 else 0)
    (by decide +kernel)

/-- In place of its first part, `page` may have the parts of `card`. -/
theorem inline_keeps_css_stacked :
    ((stacked.register [("page", .compose " box nope  md:card !box\tp-[1px]")] .all).compile
      "hover:page" .rule).css =
    (stacked.compile "hover:page" .rule).css := by
  have hapart : Text.Apart "" "card" " md:card !box\tp-[1px]" "card md:card !box\tp-[1px]" :=
    ⟨by decide, by decide, by decide⟩
  have hpage : stacked.registry.get? "page" = some ⟨.compose "card md:card !box\tp-[1px]", .all⟩ := by
    decide +kernel
  have hcard : stacked.registry.get? "card" = some ⟨.compose " box nope ", .none⟩ := by decide +kernel
  have h := (inline_keeps_css stacked acyclic_stacked hpage hcard (by decide +kernel) (by decide)
    (by decide)).2 _ _ hapart
  exact h.2 "hover:page" .rule

end Compiler

end UtilityCss
