import UtilityCss.Math.Spacing
import Mathlib.Data.List.Basic

/-!
# The words of arguments

Spacing lays the arguments of a call out as words with single spaces between. A word is an operator,
or a run of characters that stand for themselves (`IsWord`), and a word is its own only word
(`argumentWords_of_isWord`). So arguments that have been spaced are kept
(`spaceArguments_spaceArguments`), and spacing neither adds nor takes away, nor moves, a character
other than blanks and `_` (`filter_spaceArguments`).
-/

namespace UtilityCss.Math
open Text

variable {c : Char} {s t v w : List Char}

/-! ### Words between blanks -/

theorem wordsFrom_nil (w : List Char) : wordsFrom w [] = if w = [] then [] else [w.reverse] := rfl

theorem wordsFrom_blank (hc : isBlank c) (w s : List Char) :
    wordsFrom w (c :: s) = wordsFrom w [] ++ wordsFrom [] s := by
  by_cases hw : w = [] <;> simp [wordsFrom, hc, hw]

theorem wordsFrom_cons (hc : isBlank c = false) (w s : List Char) :
    wordsFrom w (c :: s) = wordsFrom (c :: w) s := by
  rw [wordsFrom, if_neg (by simp [hc])]

/-- A blank divides the words before it from those behind it. -/
theorem wordsFrom_append_blank (hc : isBlank c) (w s t : List Char) :
    wordsFrom w (s ++ c :: t) = wordsFrom w s ++ wordsFrom [] t := by
  induction s generalizing w with
  | nil => exact wordsFrom_blank hc w t
  | cons d s ih =>
      rw [List.cons_append]
      by_cases hd : isBlank d
      · rw [wordsFrom_blank hd, wordsFrom_blank hd w s, ih, List.append_assoc]
      · have hd : isBlank d = false := by simpa using hd
        rw [wordsFrom_cons hd, wordsFrom_cons hd, ih]

/-- A text without blanks is at most one word. -/
theorem wordsFrom_of_not_isBlank (hs : ∀ c ∈ s, isBlank c = false) (w : List Char) :
    wordsFrom w s = wordsFrom (s.reverse ++ w) [] := by
  induction s generalizing w with
  | nil => rfl
  | cons c s ih =>
      rw [wordsFrom_cons (hs c List.mem_cons_self), ih fun d hd => hs d (List.mem_cons_of_mem c hd)]
      simp

/-- The words of a text hold what is not blank in it. -/
theorem flatten_wordsFrom (w s : List Char) :
    (wordsFrom w s).flatten = w.reverse ++ s.filter fun c => !isBlank c := by
  induction s generalizing w with
  | nil =>
      rw [wordsFrom_nil]
      split <;> simp_all
  | cons c s ih =>
      by_cases hc : isBlank c
      · rw [wordsFrom_blank hc, List.flatten_append, ih, wordsFrom_nil]
        split <;> simp_all
      · have hc : isBlank c = false := by simpa using hc
        rw [wordsFrom_cons hc, ih]
        simp [hc]

/-! ### Words -/

def isOperator (c : Char) : Bool := c = '+' || c = '-' || c = '*' || c = '/'

/-- Whether a character stands for itself in arguments. -/
def isPlain (c : Char) : Bool := c ≠ '_' && !isOperator c && !isBlank c

/-- A piece of arguments that has no space in it and one on either side. -/
inductive IsWord : List Char → Prop where
  | operator {c : Char} (h : isOperator c) : IsWord [c]
  | plain {w : List Char} (h : ∀ c ∈ w, isPlain c) (hw : w ≠ []) : IsWord w

theorem pad_eq (c : Char) :
    pad c = if c = '_' then [' '] else if isOperator c then [' ', c, ' '] else [c] := rfl

theorem not_isBlank_of_isOperator (h : isOperator c) : isBlank c = false := by
  simp only [isOperator, Bool.or_eq_true, decide_eq_true_eq] at h
  rcases h with ((rfl | rfl) | rfl) | rfl <;> decide

theorem pad_of_isOperator (h : isOperator c) : pad c = [' ', c, ' '] := by
  have hu : c ≠ '_' := by
    rintro rfl
    exact absurd h (by decide)
  rw [pad_eq, if_neg hu, if_pos h]

theorem isPlain_iff : isPlain c ↔ c ≠ '_' ∧ isOperator c = false ∧ isBlank c = false := by
  simp [isPlain, and_assoc]

theorem pad_of_isPlain (h : isPlain c) : pad c = [c] := by
  obtain ⟨hu, ho, -⟩ := isPlain_iff.1 h
  rw [pad_eq, if_neg hu, if_neg (by simp [ho])]

/-- A character becomes a blank, or is an operator, or stands for itself. -/
theorem pad_cases (c : Char) :
    (∃ b, isBlank b ∧ pad c = [b]) ∨ isOperator c ∨ isPlain c := by
  by_cases hu : c = '_'
  · exact .inl ⟨' ', by decide, by rw [pad_eq, if_pos hu]⟩
  · by_cases ho : isOperator c
    · exact .inr (.inl ho)
    · by_cases hb : isBlank c
      · exact .inl ⟨c, hb, by rw [pad_eq, if_neg hu, if_neg ho]⟩
      · exact .inr (.inr (isPlain_iff.2 ⟨hu, by simpa using ho, by simpa using hb⟩))

/-- The words of the arguments of a call. -/
def argumentWords (s : List Char) : List (List Char) := wordsFrom [] (s.flatMap pad)

/-- An operator is a word between those before it and those behind it. -/
theorem wordsFrom_operator (hc : isOperator c) (w s : List Char) :
    wordsFrom w ([' ', c, ' '] ++ s) = wordsFrom w [] ++ [c] :: wordsFrom [] s := by
  rw [List.cons_append, wordsFrom_blank (by decide), List.cons_append,
    wordsFrom_cons (not_isBlank_of_isOperator hc), List.singleton_append,
    wordsFrom_blank (by decide)]
  rfl

theorem isWord_of_mem_wordsFrom_nil (hv : ∀ c ∈ v, isPlain c) (h : w ∈ wordsFrom v []) :
    IsWord w := by
  rw [wordsFrom_nil] at h
  split at h
  · cases h
  · rename_i hne
    rw [List.mem_singleton.1 h]
    exact .plain (by simpa using hv) (by simpa using hne)

theorem isWord_of_mem_wordsFrom (hv : ∀ c ∈ v, isPlain c)
    (h : w ∈ wordsFrom v (s.flatMap pad)) : IsWord w := by
  induction s generalizing v with
  | nil => exact isWord_of_mem_wordsFrom_nil hv h
  | cons c s ih =>
      rw [List.flatMap_cons] at h
      -- a character ends the word so far, is a word of its own, or goes on with that word
      rcases pad_cases c with ⟨b, hb, e⟩ | ho | hp
      · rw [e, List.singleton_append, wordsFrom_blank hb] at h
        rcases List.mem_append.1 h with h | h
        · exact isWord_of_mem_wordsFrom_nil hv h
        · exact ih (by simp) h
      · rw [pad_of_isOperator ho, wordsFrom_operator ho] at h
        rcases List.mem_append.1 h with h | h
        · exact isWord_of_mem_wordsFrom_nil hv h
        · rcases List.mem_cons.1 h with rfl | h
          · exact .operator ho
          · exact ih (by simp) h
      · rw [pad_of_isPlain hp, List.singleton_append,
          wordsFrom_cons (isPlain_iff.1 hp).2.2] at h
        exact ih (List.forall_mem_cons.2 ⟨hp, hv⟩) h

theorem isWord_of_mem_argumentWords (h : w ∈ argumentWords s) : IsWord w :=
  isWord_of_mem_wordsFrom (by simp) h

/-- A word is its only word. -/
theorem argumentWords_of_isWord (h : IsWord w) : argumentWords w = [w] := by
  cases h with
  | @operator c ho =>
      rw [argumentWords, List.flatMap_singleton, pad_of_isOperator ho]
      exact wordsFrom_operator ho [] []
  | plain hp hne =>
      have hpad : w.flatMap pad = w := by
        rw [List.flatMap_congr fun c hc => pad_of_isPlain (hp c hc), List.flatMap_singleton']
      rw [argumentWords, hpad, wordsFrom_of_not_isBlank fun c hc => (isPlain_iff.1 (hp c hc)).2.2,
        wordsFrom_nil, if_neg (by simpa using hne)]
      simp

/-! ### Spaced arguments -/

theorem spaceArguments_eq (s : List Char) :
    spaceArguments s = [' '].intercalate (argumentWords s) := rfl

/-- The words of texts with spaces between are those of each of them. -/
theorem argumentWords_intercalate (ts : List (List Char)) :
    argumentWords ([' '].intercalate ts) = ts.flatMap argumentWords := by
  induction ts with
  | nil => rfl
  | cons t ts ih =>
      by_cases hts : ts = []
      · subst hts
        rw [List.intercalate_singleton, List.flatMap_singleton]
      · rw [List.intercalate_cons_of_ne_nil hts, List.flatMap_cons, ← ih, List.append_assoc]
        simp only [argumentWords, List.flatMap_append, List.flatMap_singleton]
        exact wordsFrom_append_blank (by decide) _ _ _

/-- Spaced arguments are kept. -/
theorem spaceArguments_spaceArguments (s : List Char) :
    spaceArguments (spaceArguments s) = spaceArguments s := by
  have hwords : (argumentWords s).flatMap argumentWords = argumentWords s := by
    rw [List.flatMap_congr fun w hw => argumentWords_of_isWord (isWord_of_mem_argumentWords hw),
      List.flatMap_singleton']
  rw [spaceArguments_eq, spaceArguments_eq s, argumentWords_intercalate, hwords]

theorem filter_intercalate_space {p : Char → Bool} (hp : p ' ' = false) (ts : List (List Char)) :
    ([' '].intercalate ts).filter p = ts.flatten.filter p := by
  induction ts with
  | nil => rfl
  | cons t ts ih =>
      by_cases hts : ts = []
      · subst hts
        simp
      · rw [List.intercalate_cons_of_ne_nil hts, List.flatten_cons]
        simp [hp, ih]

/-- Spacing keeps every character that is neither blank nor `_`, in order. -/
theorem filter_spaceArguments {p : Char → Bool} (hp : ∀ c, p c → isBlank c = false ∧ c ≠ '_')
    (s : List Char) : (spaceArguments s).filter p = s.filter p := by
  have hspace : p ' ' = false := by
    cases h : p ' ' with
    | false => rfl
    | true => exact absurd (hp ' ' h).1 (by decide)
  have hpad : ∀ c, (pad c).filter p = [c].filter p := by
    intro c
    rw [pad_eq]
    split
    · rename_i hu
      have hc : p c = false := by
        cases h : p c with
        | false => rfl
        | true => exact absurd hu (hp c h).2
      simp [hspace, hc]
    · split <;> simp [hspace, List.filter_cons]
  -- so what is kept is not lost with the blanks between words either
  have hblank : ∀ c, (p c && !isBlank c) = p c := by
    intro c
    cases h : p c with
    | false => rfl
    | true => simp [(hp c h).1]
  calc (spaceArguments s).filter p
      = (argumentWords s).flatten.filter p := filter_intercalate_space hspace _
    _ = (s.flatMap pad).filter p := by
        rw [argumentWords, flatten_wordsFrom]
        simp [List.filter_filter, hblank]
    _ = s.filter p := by
        rw [List.filter_flatMap, List.flatMap_congr fun c _ => hpad c, ← List.filter_flatMap,
          List.flatMap_singleton']

end UtilityCss.Math
