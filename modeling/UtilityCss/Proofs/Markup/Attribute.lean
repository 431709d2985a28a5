import UtilityCss.Markup.ClassAttribute
import UtilityCss.Proofs.Math.Words
import UtilityCss.Proofs.Sheet.Occurrence
import UtilityCss.Proofs.Text

/-!
# Class attributes as they are written

A class attribute is written as `class=` and a value between two quotes of one kind (`Attribute`). In
markup without any other `class` the scan begins nothing between attributes (`classValues_append`),
and it finds the whole value of an attribute that holds neither kind of quote
(`classValues_chars_append`). A value may hold the quote that is not its own; but no token that is found
holds any (`not_isQuote_of_mem_classTokens`). So the tokens of such markup are the words of its values
exactly if no value is mixed in this way (`classTokens_written_iff`): the scan ends a value at the first
quote of either kind, and what follows there is lost.
-/

namespace UtilityCss.Markup
open Text

variable {s t r v : List Char}

/-- A value between two quotes of one kind, which it does not hold. -/
structure Attribute where
  quote          : Char
  value          : String
  isQuote_quote  : isQuote quote
  value_ne_empty : value.toList ≠ []
  quote_not_mem  : quote ∉ value.toList

namespace Attribute

/-- The text of a class attribute. -/
def chars (a : Attribute) : List Char :=
  "class".toList ++ '=' :: a.quote :: (a.value.toList ++ [a.quote])

/-- The value holds a quote, which is of the other kind. -/
def IsMixed (a : Attribute) : Prop := ∃ c ∈ a.value.toList, isQuote c

instance (a : Attribute) : Decidable a.IsMixed :=
  decidable_of_iff (a.value.toList.any isQuote = true) List.any_eq_true

end Attribute

/-- Markup with class attributes: a text, and then attributes with a text behind each of them. -/
def written (head : String) (parts : List (Attribute × String)) : String :=
  String.ofList (head.toList ++ parts.flatMap fun p => p.1.chars ++ p.2.toList)

/-- The words of the values of attributes. -/
def wordsOf (parts : List (Attribute × String)) : List String :=
  parts.flatMap fun p => words p.1.value

/-! ### The scan -/

theorem classValues_cons_of_none {c : Char} (h : classAttribute? (c :: s) = none) :
    classValues (c :: s) = classValues s := by
  rw [classValues]
  split
  · rename_i hr
    rw [h] at hr
    cases hr
  · rfl

theorem classValues_of_classAttribute? (h : classAttribute? s = some (v, r)) :
    classValues s = v :: classValues r := by
  cases s with
  | nil => cases h
  | cons c s =>
      rw [classValues]
      split
      · rename_i hr
        rw [h] at hr
        cases hr
        rfl
      · rename_i hr
        rw [h] at hr
        cases hr

theorem classAttribute?_eq_none (h : ¬ "class".toList <+: s) : classAttribute? s = none := by
  have hnone : dropPrefix? "class".toList s = none := by
    rw [Option.eq_none_iff_forall_ne_some]
    intro t ht
    exact h ⟨t, (dropPrefix?_eq_some_iff.1 ht).symm⟩
  rw [classAttribute?, hnone]
  rfl

/-- No attribute begins in a text without `class`, also where the next one follows: the first letter of
`class` does not occur in it again. -/
theorem classValues_append (h : ¬ "class".toList <:+: s) (ht : t = [] ∨ t.head? = some 'c') :
    classValues (s ++ t) = classValues t := by
  have hclass : "class".toList = 'c' :: "lass".toList := by decide
  induction s with
  | nil => rfl
  | cons d s ih =>
      rw [List.infix_cons_iff, not_or] at h
      rw [List.cons_append, classValues_cons_of_none, ih h.2]
      refine classAttribute?_eq_none fun hp => h.1 ?_
      rcases ht with rfl | ht
      · rwa [List.append_nil] at hp
      · obtain ⟨t, rfl⟩ := List.head?_eq_some_iff.1 ht
        rw [hclass, List.cons_prefix_cons] at hp ⊢
        exact ⟨hp.1, prefix_of_prefix_append_cons (by decide) hp.2⟩

/-- A value without quotes is found as a whole. -/
theorem classAttribute?_chars_append {a : Attribute} (h : ¬ a.IsMixed) (t : List Char) :
    classAttribute? (a.chars ++ t) = some (a.value.toList, t) := by
  have hclass : dropPrefix? "class".toList (a.chars ++ t) =
      some ('=' :: a.quote :: (a.value.toList ++ a.quote :: t)) :=
    dropPrefix?_eq_some_iff.2 (by simp only [Attribute.chars, List.append_assoc, List.cons_append,
      List.nil_append])
  have hblank : isBlank a.quote = false := by
    have hq := a.isQuote_quote
    rw [isQuote, Bool.or_eq_true, decide_eq_true_eq, decide_eq_true_eq] at hq
    rcases hq with hq | hq <;> rw [hq] <;> decide
  have hopen : openValue? ('=' :: a.quote :: (a.value.toList ++ a.quote :: t)) =
      some (a.value.toList ++ a.quote :: t) := by
    have heq : isBlank '=' = false := by decide
    simp [openValue?, heq, hblank, a.isQuote_quote]
  have hplain : ∀ c ∈ a.value.toList, (!isQuote c) = true := by
    intro c hc
    by_contra hq
    exact h ⟨c, hc, by simpa using hq⟩
  have htake : (a.value.toList ++ a.quote :: t).takeWhile (!isQuote ·) = a.value.toList := by
    rw [List.takeWhile_append_of_pos hplain, List.takeWhile_cons, a.isQuote_quote]
    simp
  have hdrop : (a.value.toList ++ a.quote :: t).dropWhile (!isQuote ·) = a.quote :: t := by
    rw [List.dropWhile_append_of_pos hplain, List.dropWhile_cons, a.isQuote_quote]
    simp
  rw [classAttribute?, hclass, Option.bind_some, hopen]
  simp only [htake, hdrop]
  obtain ⟨c, v, hv⟩ := List.exists_cons_of_ne_nil a.value_ne_empty
  rw [hv]

/-- Attributes that are not mixed are all found. -/
theorem classValues_written {head : String} {parts : List (Attribute × String)}
    (hhead : ¬ "class".toList <:+: head.toList)
    (hparts : ∀ p ∈ parts, ¬ "class".toList <:+: p.2.toList) (h : ∀ p ∈ parts, ¬ p.1.IsMixed) :
    classValues (written head parts).toList = parts.map fun p => p.1.value.toList := by
  induction parts generalizing head with
  | nil =>
      have hnone := classValues_append hhead (.inl rfl)
      rw [List.append_nil] at hnone
      rw [written, List.flatMap_nil, List.append_nil, String.toList_ofList, hnone, classValues,
        List.map_nil]
  | cons p parts ih =>
      obtain ⟨hp, hparts⟩ := List.forall_mem_cons.1 hparts
      obtain ⟨hplain, h⟩ := List.forall_mem_cons.1 h
      have hwritten : (written head (p :: parts)).toList =
          head.toList ++ (p.1.chars ++ (written p.2 parts).toList) := by
        simp only [written, String.toList_ofList, List.flatMap_cons, List.append_assoc]
      rw [hwritten, classValues_append hhead (.inr rfl),
        classValues_of_classAttribute? (classAttribute?_chars_append hplain _), ih hp hparts h,
        List.map_cons]

/-! ### No token holds a quote -/

theorem not_isQuote_of_mem_classValues (h : v ∈ classValues s) : ∀ c ∈ v, isQuote c = false := by
  fun_induction classValues s with
  | case1 => cases h
  | case2 c s w r hr ih =>
      rcases List.mem_cons.1 h with rfl | h
      · -- a value is what stands before the next quote
        intro d hd
        unfold classAttribute? at hr
        split at hr
        · cases hr
        split at hr
        · cases hr
          simpa using List.mem_takeWhile_imp hd
        · cases hr
      · exact ih h
  | case3 c s hr ih => exact ih h

/-- The words of a text hold its characters, but for blanks. -/
theorem exists_mem_words {c : Char} (hb : isBlank c = false) {text : String} :
    (∃ w ∈ words text, c ∈ w.toList) ↔ c ∈ text.toList := by
  have hflat := Math.flatten_wordsFrom [] text.toList
  have hmem : c ∈ (wordsFrom [] text.toList).flatten ↔ c ∈ text.toList := by
    rw [hflat]
    simp [hb]
  rw [← hmem, List.mem_flatten, words]
  simp

theorem not_isQuote_of_mem_classTokens {document token : String}
    (h : token ∈ classTokens document) : ∀ c ∈ token.toList, isQuote c = false := by
  obtain ⟨v, hv, htoken⟩ := List.mem_flatMap.1 h
  intro c hc
  have hblank := not_isBlank_of_mem_words htoken c hc
  have hmem := (exists_mem_words hblank).1 ⟨token, htoken, hc⟩
  exact not_isQuote_of_mem_classValues hv c (by simpa using hmem)

/-- **Tokens of written markup.** In markup whose only `class` are those of its class attributes, the
tokens are the words of the values exactly if no value holds a quote of the other kind; the classes
of the markup are then the candidates among these words, each once, in order of first occurrence. -/
theorem classTokens_written_iff {head : String} {parts : List (Attribute × String)}
    (hhead : ¬ "class".toList <:+: head.toList)
    (hparts : ∀ p ∈ parts, ¬ "class".toList <:+: p.2.toList) :
    (classTokens (written head parts) = wordsOf parts ↔ ∀ p ∈ parts, ¬ p.1.IsMixed) ∧
    ((∀ p ∈ parts, ¬ p.1.IsMixed) → ∀ c : Compiler,
      c.classesOf (written head parts) = ((wordsOf parts).filter c.isCandidate).eraseDups) := by
  have htokens : (∀ p ∈ parts, ¬ p.1.IsMixed) →
      classTokens (written head parts) = wordsOf parts := by
    intro h
    rw [classTokens, classValues_written hhead hparts h, List.flatMap_map]
    simp only [String.ofList_toList]
    rfl
  refine ⟨⟨fun h p hp => ?_, htokens⟩, fun h c => ?_⟩
  · rintro ⟨c, hc, hquote⟩
    have hblank : isBlank c = false := by
      rw [isQuote, Bool.or_eq_true, decide_eq_true_eq, decide_eq_true_eq] at hquote
      rcases hquote with rfl | rfl <;> decide
    -- the word that holds the quote is none of the tokens
    obtain ⟨w, hw, hcw⟩ := (exists_mem_words hblank).2 hc
    have hmem : w ∈ classTokens (written head parts) := h ▸ List.mem_flatMap.2 ⟨p, hp, hw⟩
    rw [not_isQuote_of_mem_classTokens hmem c hcw] at hquote
    cases hquote
  · rw [Compiler.classesOf_eq, Compiler.candidates, htokens h]

/-- Two values between quotes of two kinds. -/
def bothKinds : List (Attribute × String) :=
  [(⟨'"', "flex p-[4px]", by decide, by decide, by decide⟩, "><b id='x' "),
    (⟨'\'', " grid flex ", by decide, by decide, by decide⟩, "></b>")]

theorem classTokens_written_iff_both_kinds :
    classTokens (written "<p " bothKinds) = ["flex", "p-[4px]", "grid", "flex"] ∧
      Compiler.default.classesOf (written "<p " bothKinds) = ["flex", "p-[4px]", "grid"] := by
  have hhead : ¬ "class".toList <:+: "<p ".toList := by decide +kernel
  have hparts : ∀ p ∈ bothKinds, ¬ "class".toList <:+: p.2.toList := by decide +kernel
  have hplain : ∀ p ∈ bothKinds, ¬ p.1.IsMixed := by decide +kernel
  obtain ⟨htokens, hclasses⟩ := classTokens_written_iff hhead hparts
  exact ⟨(htokens.2 hplain).trans (by decide +kernel),
    (hclasses hplain _).trans (by decide +kernel)⟩

/-- A value with an apostrophe between double quotes. -/
def apostrophe : Attribute := ⟨'"', "it's flex", by decide, by decide, by decide⟩

/-- What follows an apostrophe is lost. -/
theorem classTokens_written_ne_wordsOf :
    let parts := [(apostrophe, ">")]
    ¬ "class".toList <:+: "<p ".toList ∧ (∀ p ∈ parts, ¬ "class".toList <:+: p.2.toList) ∧
    classTokens (written "<p " parts) = ["it"] ∧ wordsOf parts = ["it's", "flex"] ∧
    Compiler.default.classesOf (written "<p " parts) = [] ∧
    ((wordsOf parts).filter Compiler.default.isCandidate).eraseDups = ["flex"] := by
  decide +kernel

end UtilityCss.Markup
