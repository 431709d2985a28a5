import UtilityCss.Proofs.Expansion.Request
import UtilityCss.Proofs.Markup.Candidate
import UtilityCss.Proofs.Token.Modifier

/-!
# Values behind a hyphen and in brackets

A class names a key and a value by `key-value` or by `key-[value]`. The bracket form has one reading,
since no key holds a bracket. The other one is cut at a hyphen that leaves a key before it, and keys and
values may hold hyphens; but no key with a hyphen behind it begins another key
(`Rule.not_prefix_of_key`), so a class has one such cut at most (`Rule.key_unique`), and the order in
which the cuts are tried is of no importance (`Rule.findSome?_perm_hyphenCuts`). No keyword begins with
a key and a hyphen either. So both forms name the same rule and the same value (`Rule.ofClass?_hyphen`,
`Rule.ofClass?_bracket`), and behind the same modifiers they compile to the same text with the same
reports (`Compiler.shorthand_means_bracketed`).
-/

namespace UtilityCss
open Text

instance : DecidablePred IsBracketForm := fun _ => decidable_of_iff _ isSome_bracketForm?_iff

/-- A text with a plain key before it does not begin with a mark. -/
theorem IsPlain.head?_append_ne {key : List Char} (h : IsPlain key) (s : List Char) :
    (key ++ s).head? ≠ some '!' := by
  obtain ⟨c, key, rfl⟩ := List.exists_cons_of_ne_nil h.1
  rintro ⟨⟩
  exact h.not_mem (by decide) List.mem_cons_self

/-! ### Cuts -/

namespace Rule

variable {k k' v v' name : String} {key value s : List Char} {r : Rule}

/-- No key with a hyphen behind it begins another key or a keyword. -/
theorem not_prefix_of_key : ∀ r ∈ keyed, ∀ r' ∈ keyed ++ keywords,
    ¬ r.key.toList ++ ['-'] <+: r'.key.toList := by
  decide +kernel

theorem isPlain_key : ∀ r ∈ keyed, IsPlain r.key.toList := by decide

theorem of_ofKey? (h : ofKey? k = some r) : r ∈ keyed ∧ r.key = k :=
  ⟨List.mem_of_find?_eq_some h, by simpa using List.find?_some h⟩

/-- The longer one of two keys would begin with the shorter one and a hyphen. -/
theorem key_eq_of_append {a : List Char} (hk : (ofKey? k).isSome) (hk' : (ofKey? k').isSome)
    (h : k'.toList = k.toList ++ a) (ha : '-' :: key = a ++ '-' :: value) : k = k' ∧ key = value := by
  obtain ⟨r, hr⟩ := Option.isSome_iff_exists.1 hk
  obtain ⟨r', hr'⟩ := Option.isSome_iff_exists.1 hk'
  obtain ⟨hmem, rfl⟩ := of_ofKey? hr
  obtain ⟨hmem', rfl⟩ := of_ofKey? hr'
  cases a with
  | nil =>
      rw [List.append_nil] at h
      exact ⟨(String.toList_inj.1 h).symm, List.tail_eq_of_cons_eq ha⟩
  | cons c a =>
      obtain ⟨rfl, -⟩ := List.cons.inj ha
      have hprefix : r.key.toList ++ ['-'] <+: r'.key.toList := ⟨a, by rw [h]; simp⟩
      exact absurd hprefix (not_prefix_of_key r hmem r' (List.mem_append_left _ hmem'))

/-- A class is cut at one hyphen at most into a key and a value. -/
theorem key_unique (hk : (ofKey? k).isSome) (hk' : (ofKey? k').isSome)
    (h : k.toList ++ '-' :: key = k'.toList ++ '-' :: value) : k = k' ∧ key = value := by
  rcases List.append_eq_append_iff.1 h with ⟨a, ha, hrest⟩ | ⟨a, ha, hrest⟩
  · exact key_eq_of_append hk hk' ha hrest
  · obtain ⟨rfl, rfl⟩ := key_eq_of_append hk' hk ha hrest
    exact ⟨rfl, rfl⟩

/-- The rule and the value that a cut names. -/
def ofCut? (cut : List Char × List Char) : Option (Rule × String) :=
  (ofKey? (String.ofList cut.1)).map fun r => (r, String.ofList cut.2)

/-- One cut of a class names a rule at most. -/
theorem cut_unique {cut cut' : List Char × List Char} (h : cut ∈ hyphenCuts [] s)
    (h' : cut' ∈ hyphenCuts [] s) (hr : (ofCut? cut).isSome) (hr' : (ofCut? cut').isSome) :
    cut = cut' := by
  obtain ⟨key, value⟩ := cut
  obtain ⟨key', value'⟩ := cut'
  obtain ⟨-, l, rfl, rfl⟩ := mem_hyphenCuts.1 h
  obtain ⟨-, l', hs, rfl⟩ := mem_hyphenCuts.1 h'
  rw [ofCut?, Option.isSome_map] at hr hr'
  obtain ⟨hkey, rfl⟩ := key_unique hr hr' (by simpa using hs)
  have hkey : key = key' := String.ofList_inj.1 hkey
  rw [hkey]

theorem findSome?_eq_some_iff_of_unique {α β : Type} {f : α → Option β} {l : List α} {b : β}
    (hu : ∀ a ∈ l, ∀ a' ∈ l, (f a).isSome → (f a').isSome → a = a') :
    l.findSome? f = some b ↔ ∃ a ∈ l, f a = some b := by
  refine ⟨List.exists_of_findSome?_eq_some, ?_⟩
  rintro ⟨a, ha, hb⟩
  obtain ⟨b', hb'⟩ : ∃ b', l.findSome? f = some b' :=
    Option.isSome_iff_exists.1 (List.findSome?_isSome_iff.2 ⟨a, ha, by simp [hb]⟩)
  obtain ⟨a', ha', hfound⟩ := List.exists_of_findSome?_eq_some hb'
  obtain rfl := hu a ha a' ha' (by simp [hb]) (by simp [hfound])
  rw [hb', ← hfound, hb]

/-- The order in which the cuts of a class are tried is of no importance. -/
theorem findSome?_perm_hyphenCuts {cuts : List (List Char × List Char)}
    (h : cuts.Perm (hyphenCuts [] s)) : cuts.findSome? ofCut? = (hyphenCuts [] s).findSome? ofCut? := by
  have hu : ∀ cut ∈ hyphenCuts [] s, ∀ cut' ∈ hyphenCuts [] s,
      (ofCut? cut).isSome → (ofCut? cut').isSome → cut = cut' := fun _ hc _ hc' => cut_unique hc hc'
  refine Option.ext fun found => ?_
  rw [findSome?_eq_some_iff_of_unique hu, findSome?_eq_some_iff_of_unique fun cut hc cut' hc' =>
    hu cut (h.mem_iff.1 hc) cut' (h.mem_iff.1 hc')]
  simp only [h.mem_iff]

/-! ### The two forms of a class -/

theorem ofKeyword?_eq_none (hr : ofKey? k = some r) (h : k.toList ++ ['-'] <+: name.toList) :
    ofKeyword? name = none := by
  obtain ⟨hmem, rfl⟩ := of_ofKey? hr
  refine List.find?_eq_none.2 fun r' hmem' hname => ?_
  rw [← of_decide_eq_true hname] at h
  exact not_prefix_of_key r hmem r' (List.mem_append_right _ hmem') h

theorem bracketForm?_of_isPlain (hk : IsPlain key) (hv : value ≠ []) (hline : '\n' ∉ value) :
    bracketForm? (key ++ '-' :: '[' :: value ++ [']']) = some (key, value) := by
  have hs : key ++ '-' :: '[' :: value ++ [']'] = (key ++ ['-']) ++ '[' :: (value ++ [']']) := by simp
  have hb : '[' ∉ key ++ ['-'] := by simp [hk.bracket_not_mem]
  rw [hs, bracketForm?, takeWhile_bracket hb, dropWhile_bracket hb, List.drop_one, List.tail_cons,
    dropSuffix?_eq_some_iff.2 rfl, dropSuffix?_eq_some_iff.2 rfl]
  exact if_pos ⟨hk.1, hk.2, hv, by simpa using hline⟩

/-- Behind a key and a hyphen stands the value. -/
theorem ofClass?_hyphen (hr : ofKey? k = some r) (hv : v ≠ "")
    (hform : ¬ IsBracketForm (k ++ "-" ++ v).toList) : ofClass? (k ++ "-" ++ v) = some (r, v) := by
  have hs : (k ++ "-" ++ v).toList = k.toList ++ '-' :: v.toList := by simp
  have hkeyword : ofKeyword? (k ++ "-" ++ v) = none :=
    ofKeyword?_eq_none hr ⟨v.toList, by simp⟩
  have hnone : bracketForm? (k ++ "-" ++ v).toList = none := by
    rw [← Option.not_isSome_iff_eq_none, isSome_bracketForm?_iff]
    exact hform
  have hvalue : v.toList ≠ [] := fun e => hv (String.toList_inj.1 e)
  have hcut : (k.toList, v.toList) ∈ hyphenCuts [] (k ++ "-" ++ v).toList :=
    mem_hyphenCuts.2 ⟨hvalue, k.toList, hs, rfl⟩
  have hfound : (hyphenCuts [] (k ++ "-" ++ v).toList).findSome? ofCut? = some (r, v) :=
    (findSome?_eq_some_iff_of_unique fun _ hc _ hc' => cut_unique hc hc').2
      ⟨_, hcut, by simp [ofCut?, hr]⟩
  rw [ofClass?, hkeyword, hnone]
  exact hfound

/-- Between brackets stands the value. -/
theorem ofClass?_bracket (hr : ofKey? k = some r) (hv : v ≠ "") (hline : '\n' ∉ v.toList) :
    ofClass? (k ++ "-[" ++ v ++ "]") = some (r, v) := by
  have hs : (k ++ "-[" ++ v ++ "]").toList = k.toList ++ '-' :: '[' :: v.toList ++ [']'] := by simp
  have hkeyword : ofKeyword? (k ++ "-[" ++ v ++ "]") = none :=
    ofKeyword?_eq_none hr ⟨'[' :: v.toList ++ [']'], by simp⟩
  have hvalue : v.toList ≠ [] := fun e => hv (String.toList_inj.1 e)
  obtain ⟨hmem, rfl⟩ := of_ofKey? hr
  rw [ofClass?, hkeyword, hs, bracketForm?_of_isPlain (isPlain_key r hmem) hvalue hline]
  simp [hr]

end Rule

/-! ### Behind the same modifiers -/

namespace Token

variable {t : BreakpointTable} {m name : String}

/-- Segments with a colon behind each, and a mark or none. -/
def IsModifiers (m : String) : Prop :=
  ∃ (segments : List String) (important : Bool), (∀ s ∈ segments, ':' ∉ s.toList) ∧
    m = String.join (segments.map (· ++ ":")) ++ (if important then "!" else "")

/-- What modifiers ask for does not depend on the name behind them. -/
theorem parse_modifiers (t : BreakpointTable) (hm : IsModifiers m) :
    ∃ (asked : Token) (misplaced : List String), ∀ name : String, ':' ∉ name.toList →
      name.toList.head? ≠ some '!' → parse t (m ++ name) = ({ asked with name },
        misplaced.map fun s => .info (misplacedMessage s) (m ++ name)) := by
  obtain ⟨segments, important, hsegments, rfl⟩ := hm
  let media := segments.head?.bind (media? t)
  refine ⟨⟨media, lastPseudo? (if media.isSome then segments.tail else segments), "", important⟩,
    segments.tail.filter (looksLikeMedia t), fun name hcolon hmark => ?_⟩
  have htext : String.join (segments.map (· ++ ":")) ++ (if important then "!" else "") ++ name =
      modified segments important name := by
    rw [modified, modifierText, String.append_assoc]
    cases important <;> rfl
  rw [htext, parse_modified hsegments ⟨hcolon, hmark⟩ rfl]

end Token

namespace Compiler

variable {c : Compiler} {m name v : String} {r : Rule}

theorem ruleDeclarations_of_ofClass? {t : Token} (h : Rule.ofClass? t.name = some (r, v))
    (token : String) : ruleDeclarations token t =
      if r.accepts v then
        ⟨some (if t.important then ruleDeclarations.markImportant (r.declarations v)
          else r.declarations v), []⟩
      else ⟨none, [.warning "Invalid class or value" token]⟩ := by
  rw [ruleDeclarations, h]

/-- What comes of a class behind modifiers depends on the rule and the value that it names alone. -/
theorem compile_modifiers (c : Compiler) (hm : Token.IsModifiers m) (r : Rule) (v : String) :
    ∃ (css : Option String) (found : List (Severity × String)), ∀ name : String, ':' ∉ name.toList →
      name.toList.head? ≠ some '!' → c.registry.get? name = none →
      Rule.ofClass? name = some (r, v) → c.compile (m ++ name) .declarations =
        ⟨css, found.map fun d => ⟨d.1, d.2, m ++ name⟩⟩ := by
  obtain ⟨asked, misplaced, hparse⟩ := Token.parse_modifiers c.breakpoints hm
  have hresult : ∀ name : String, ':' ∉ name.toList → name.toList.head? ≠ some '!' →
      c.registry.get? name = none → c.compile (m ++ name) .declarations =
        (ruleDeclarations (m ++ name) { asked with name }).after
          (misplaced.map fun s => .info (Token.misplacedMessage s) (m ++ name)) := by
    intro name hcolon hmark hnone
    have hread := hparse name hcolon hmark
    have hname : Token.lastName (m ++ name) = name := by
      rw [← Token.parse_name c.breakpoints, hread]
    refine (declarationsIn_settled (request_of_get?_eq_none (by rwa [hname]))).trans ?_
    rw [hread]
  let infos : List (Severity × String) := misplaced.map fun s => (.info, Token.misplacedMessage s)
  by_cases ha : r.accepts v
  · refine ⟨some (if asked.important then ruleDeclarations.markImportant (r.declarations v)
      else r.declarations v), infos, fun name hcolon hmark hnone hclass => ?_⟩
    rw [hresult name hcolon hmark hnone, ruleDeclarations_of_ofClass? hclass, if_pos ha]
    simp [Compiled.after, infos, Diagnostic.info]
  · refine ⟨none, infos ++ [(.warning, "Invalid class or value")], fun name hcolon hmark hnone hclass => ?_⟩
    rw [hresult name hcolon hmark hnone, ruleDeclarations_of_ofClass? hclass, if_neg ha]
    simp [Compiled.after, infos, Diagnostic.info, Diagnostic.warning]

/-- **A hyphen and brackets mean the same.**  Whatever a compiler's configuration, let `k` be a key and
`v` a value on one line and without colons, and let the class `k-v` not be of bracket form. If neither
`k-v` nor `k-[v]` is a utility, then behind the same modifiers both have the same declarations, or none,
and the same is reported of each. Besides, a class is cut at one hyphen at most into a key and a value,
so its cuts may be tried in any order. -/
theorem shorthand_means_bracketed (c : Compiler) :
    (∀ k v m : String, (Rule.ofKey? k).isSome → v ≠ "" → ':' ∉ v.toList → '\n' ∉ v.toList →
      Token.IsModifiers m → c.registry.get? (k ++ "-" ++ v) = none →
      c.registry.get? (k ++ "-[" ++ v ++ "]") = none → ¬ IsBracketForm (k ++ "-" ++ v).toList →
      ∃ (css : Option String) (found : List (Severity × String)),
        c.compile (m ++ (k ++ "-" ++ v)) .declarations =
          ⟨css, found.map fun d => ⟨d.1, d.2, m ++ (k ++ "-" ++ v)⟩⟩ ∧
        c.compile (m ++ (k ++ "-[" ++ v ++ "]")) .declarations =
          ⟨css, found.map fun d => ⟨d.1, d.2, m ++ (k ++ "-[" ++ v ++ "]")⟩⟩) ∧
    (∀ k v k' v' : String, (Rule.ofKey? k).isSome → (Rule.ofKey? k').isSome →
      k ++ "-" ++ v = k' ++ "-" ++ v' → k = k' ∧ v = v') ∧
    ∀ (name : String) (cuts : List (List Char × List Char)), cuts.Perm (Rule.hyphenCuts [] name.toList) →
      cuts.findSome? Rule.ofCut? = (Rule.hyphenCuts [] name.toList).findSome? Rule.ofCut? := by
  refine ⟨fun k v m hk hv hcolon hline hm hhyphen hbracket hform => ?_, fun k v k' v' hk hk' h => ?_,
    fun name cuts => Rule.findSome?_perm_hyphenCuts⟩
  · obtain ⟨r, hr⟩ := Option.isSome_iff_exists.1 hk
    obtain ⟨hmem, rfl⟩ := Rule.of_ofKey? hr
    have hplain := Rule.isPlain_key r hmem
    have hhyphenText : (r.key ++ "-" ++ v).toList = r.key.toList ++ '-' :: v.toList := by simp
    have hbracketText : (r.key ++ "-[" ++ v ++ "]").toList =
        r.key.toList ++ '-' :: '[' :: (v.toList ++ [']']) := by simp
    obtain ⟨css, found, hresult⟩ := c.compile_modifiers hm r v
    refine ⟨css, found, hresult _ ?_ ?_ hhyphen (Rule.ofClass?_hyphen hr hv hform),
      hresult _ ?_ ?_ hbracket (Rule.ofClass?_bracket hr hv hline)⟩
    · simp [hhyphenText, hplain.colon_not_mem, hcolon]
    · rw [hhyphenText]
      exact hplain.head?_append_ne _
    · simp [hbracketText, hplain.colon_not_mem, hcolon]
    · rw [hbracketText]
      exact hplain.head?_append_ne _
  · have hlist : k.toList ++ '-' :: v.toList = k'.toList ++ '-' :: v'.toList := by
      simpa using congrArg String.toList h
    obtain ⟨rfl, hvalue⟩ := Rule.key_unique hk hk' hlist
    exact ⟨rfl, String.toList_inj.1 hvalue⟩

/-- A key and a value with hyphens of their own, behind a misplaced breakpoint and a mark. -/
theorem shorthand_means_bracketed_hyphens :
    (default.compile "md:lg:!max-w-calc(1px-2px)" .declarations).css =
      some "max-width: calc(1px - 2px) !important;" ∧
    (default.compile "md:lg:!max-w-[calc(1px-2px)]" .declarations).css =
      (default.compile "md:lg:!max-w-calc(1px-2px)" .declarations).css ∧
    (Rule.hyphenCuts [] "max-w-calc(1px-2px)".toList).reverse.findSome? Rule.ofCut? =
      (Rule.hyphenCuts [] "max-w-calc(1px-2px)".toList).findSome? Rule.ofCut? := by
  obtain ⟨hforms, -, horder⟩ := shorthand_means_bracketed default
  have hm : Token.IsModifiers "md:lg:!" := ⟨["md", "lg"], true, by decide, by decide⟩
  have hhyphenText : "md:lg:!" ++ ("max-w" ++ "-" ++ "calc(1px-2px)") = "md:lg:!max-w-calc(1px-2px)" := by
    decide
  have hbracketText :
      "md:lg:!" ++ ("max-w" ++ "-[" ++ "calc(1px-2px)" ++ "]") = "md:lg:!max-w-[calc(1px-2px)]" := by
    decide
  obtain ⟨css, found, hhyphen, hbracket⟩ := hforms "max-w" "calc(1px-2px)" "md:lg:!" (by decide)
    (by decide) (by decide) (by decide) hm rfl rfl (by decide +kernel)
  rw [hhyphenText] at hhyphen
  rw [hbracketText] at hbracket
  refine ⟨by decide +kernel, ?_, horder _ _ (List.reverse_perm _)⟩
  rw [hhyphen, hbracket]

end Compiler

end UtilityCss
