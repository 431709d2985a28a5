import Mathlib.Data.List.TakeWhile
import UtilityCss.Proofs.Json.Decoded
import UtilityCss.Proofs.Json.Printed

/-!
# Whole numbers as they are written

A text holds a whole number exactly if it is the decimal digits of this number, with a sign if it is
below zero, and the number fits 64 bits (`all_value_eq_int_iff`). So `-0` is no whole number, and neither
is a numeral with a fraction or an exponent.
-/

namespace UtilityCss.Json
open Text

variable {s t r rest digits : List Char} {c : Char} {d m : Nat} {n : Int} {j : Json} {negative : Bool}

/-! ### Digits -/

theorem toNat_of_isDigit (h : c.isDigit) : digitValue c < 10 ∧ 48 + digitValue c = c.toNat := by
  have hrange : 48 ≤ c.toNat ∧ c.toNat ≤ 57 := by
    simpa [Char.isDigit, Char.le_def, UInt32.le_iff_toNat_le] using h
  have hvalue : digitValue c = c.toNat - 48 := rfl
  omega

theorem toDigits_digitValue (h : c.isDigit) : Nat.toDigits 10 (digitValue c) = [c] := by
  have hdigit : ∀ v < 10, Nat.digitChar v = Char.ofNat (48 + v) := by decide
  obtain ⟨hlt, hvalue⟩ := toNat_of_isDigit h
  rw [Nat.toDigits_of_lt_base hlt, hdigit _ hlt, hvalue, Char.ofNat_toNat]

/-- Digits behind those of a number are those of a greater one. -/
theorem toDigits_append_of_isDigit (hm : 0 < m) (h : ∀ c ∈ s, c.isDigit) :
    Nat.toDigits 10 m ++ s = Nat.toDigits 10 (Nat.ofDigitChars 10 s m) := by
  induction s generalizing m with
  | nil => exact List.append_nil _
  | cons c s ih =>
      obtain ⟨hc, hs⟩ := List.forall_mem_cons.1 h
      have hone : Nat.toDigits 10 m ++ [c] = Nat.toDigits 10 (10 * m + digitValue c) := by
        rw [← toDigits_digitValue hc]
        exact Nat.toDigits_append_toDigits (by decide) hm (toNat_of_isDigit hc).1
      calc Nat.toDigits 10 m ++ c :: s = Nat.toDigits 10 m ++ [c] ++ s := by simp
        _ = Nat.toDigits 10 (10 * m + digitValue c) ++ s := by rw [hone]
        _ = Nat.toDigits 10 (Nat.ofDigitChars 10 s (10 * m + digitValue c)) := ih (by omega) hs
        _ = Nat.toDigits 10 (Nat.ofDigitChars 10 (c :: s) m) := by rw [ofDigitChars_cons, Nat.mul_comm]

/-- Digits of which none leads in vain are those of their number. -/
theorem toDigits_ofDigitChars (h : ∀ c ∈ s, c.isDigit) (hne : s ≠ [])
    (hhead : s.head? = some '0' → s = ['0']) : Nat.toDigits 10 (Nat.ofDigitChars 10 s 0) = s := by
  by_cases hzero : s = ['0']
  · rw [hzero]
    rfl
  obtain ⟨c, s, rfl⟩ := List.exists_cons_of_ne_nil hne
  obtain ⟨hc, hs⟩ := List.forall_mem_cons.1 h
  have hpos : 0 < digitValue c := by
    refine Nat.pos_of_ne_zero fun hvalue => hzero (hhead ?_)
    have hdigits := toDigits_digitValue hc
    rw [hvalue] at hdigits
    exact congrArg List.head? hdigits.symm
  rw [ofDigitChars_cons, Nat.zero_mul, Nat.zero_add, ← toDigits_append_of_isDigit hpos hs,
    toDigits_digitValue hc]
  rfl

/-! ### Numerals -/

theorem eq_append_of_someDigits (h : someDigits s = .ok (digits, r)) :
    s = digits ++ r ∧ digits ≠ [] ∧ ∀ c ∈ digits, c.isDigit := by
  cases s with
  | nil => cases h
  | cons c s =>
      rw [someDigits] at h
      split at h
      · rename_i hc
        cases h
        refine ⟨?_, List.cons_ne_nil _ _, List.forall_mem_cons.2 ⟨hc, ?_⟩⟩
        swap
        · exact List.all_eq_true.1 List.all_takeWhile
        rw [List.cons_append, List.takeWhile_append_dropWhile]
      · cases h

/-- Digits that leave the exponent alone have all been gathered. -/
theorem ofDigitChars_of_whole (h : (Gathered.whole ⟨m, 0⟩ s).exponent = 0) :
    Gathered.whole ⟨m, 0⟩ s = ⟨Nat.ofDigitChars 10 s m, 0⟩ := by
  induction s generalizing m with
  | nil => rfl
  | cons c s ih =>
      rw [whole_cons] at h ⊢
      cases hpush : Gathered.push? ⟨m, 0⟩ c with
      | none =>
          rw [hpush] at h
          exact absurd h (by simp only; omega)
      | some n =>
          rw [hpush] at h
          simp only [Gathered.push?, Option.ite_none_right_eq_some] at hpush
          obtain ⟨-, hn⟩ := hpush
          cases hn
          rw [ofDigitChars_cons]
          exact ih h

/-- A numeral that is read as a whole number is the digits of one. -/
theorem exists_toDigits_of_numeral (h : numeral negative s = .ok (.int n, r)) :
    ∃ m, s = Nat.toDigits 10 m ++ r ∧ Gathered.toInt? ⟨m, 0⟩ negative = some n := by
  obtain ⟨digits, rest, hdigits, hzero, hfrom⟩ := exists_digits_of_numeral h
  obtain ⟨rfl, hne, hall⟩ := eq_append_of_someDigits hdigits
  have hcanonical := toDigits_ofDigitChars hall hne hzero
  simp only [numeralFrom] at hfrom
  split at hfrom
  case h_4 =>
    split at hfrom
    · rename_i hint
      cases hfrom
      have hexponent : (Gathered.whole ⟨0, 0⟩ digits).exponent = 0 := by
        by_contra hne
        rw [Gathered.toInt?, if_pos hne] at hint
        cases hint
      rw [ofDigitChars_of_whole hexponent] at hint
      exact ⟨_, by rw [hcanonical], hint⟩
    · obtain ⟨_, -, hreal⟩ := ok_of_map hfrom
      cases hreal
  all_goals
    obtain ⟨_, -, hreal⟩ := ok_of_map hfrom
    cases hreal

/-! ### Whole numbers -/

theorem exists_of_toInt?_true (h : Gathered.toInt? ⟨m, 0⟩ true = some n) :
    ∃ k, m = k + 1 ∧ n = .negSucc k := by
  simp only [Gathered.toInt?] at h
  split at h
  · cases h
  split at h
  · rename_i hfalse
    cases hfalse
  split at h
  · rename_i hpos
    cases h
    obtain ⟨k, rfl⟩ := Nat.exists_eq_succ_of_ne_zero (Nat.ne_of_gt hpos.1)
    exact ⟨k, rfl, rfl⟩
  · cases h

theorem eq_of_toInt?_false (h : Gathered.toInt? ⟨m, 0⟩ false = some n) : n = .ofNat m := by
  cases h
  rfl

/-- A whole number is read off its digits. -/
theorem NumberAt.eq_toString (h : NumberAt s (.int n) rest) :
    skipSpace s = (toString n).toList ++ rest := by
  cases h with
  | negative hs hn =>
      obtain ⟨m, rfl, hint⟩ := exists_toDigits_of_numeral hn
      obtain ⟨k, rfl, rfl⟩ := exists_of_toInt?_true hint
      rw [hs, show (toString (Int.negSucc k)).toList = _ from toList_compact_negSucc k]
      rfl
  | unsigned hs hc hn =>
      obtain ⟨m, hdigits, hint⟩ := exists_toDigits_of_numeral hn
      obtain rfl := eq_of_toInt?_false hint
      rw [hs, hdigits, show (toString (Int.ofNat m)).toList = _ from toList_compact_ofNat m]

theorem numberAt_of_toString (hfits : fitsWidth 63 64 n) (hs : skipSpace s = (toString n).toList ++ rest)
    (hrest : EndsNumeral rest) : NumberAt s (.int n) rest := by
  cases n with
  | negSucc k =>
      rw [show (toString (Int.negSucc k)).toList = _ from toList_compact_negSucc k] at hs
      exact .negative hs (numeral_negSucc hfits hrest)
  | ofNat m =>
      rw [show (toString (Int.ofNat m)).toList = _ from toList_compact_ofNat m] at hs
      obtain ⟨c, digits, hdigits, hc, -⟩ := exists_toDigits_eq_cons m
      have hnumeral := numeral_ofNat hfits hrest
      rw [hdigits] at hs hnumeral
      exact .unsigned hs hc hnumeral

theorem gives_of_numberAt (h : NumberAt s j rest) : Gives (Reader.value d s) j rest := by
  cases h with
  | negative hs hn =>
      rw [gives_value_iff, hs]
      exact gives_numeral hn
  | unsigned hs hc hn => exact (gives_value_of_isDigit hs hc).2 (gives_numeral hn)

/-- The text is `lexeme` with blanks before and behind it. -/
def Alone (lexeme s : List Char) : Prop :=
  ∃ before after, (∀ c ∈ before, isSpace c) ∧ (∀ c ∈ after, isSpace c) ∧ s = before ++ lexeme ++ after

theorem endsNumeral_of_isSpace (h : ∀ c ∈ s, isSpace c) : EndsNumeral s := by
  intro c hc
  have hspace := h c (List.mem_of_mem_head? hc)
  simp only [isSpace, Bool.or_eq_true, decide_eq_true_eq] at hspace
  rcases hspace with ((rfl | rfl) | rfl) | rfl <;> decide

theorem skipSpace_toString_append (n : Int) (s : List Char) :
    skipSpace ((toString n).toList ++ s) = (toString n).toList ++ s := by
  have hprinted : prettyAt 0 (.int n) = toString n := by
    simp only [prettyAt]
    rfl
  have hreal : ∀ x, Json.int n ≠ .real x := by
    intro x hx
    cases hx
  exact hprinted ▸ (beginsValue_prettyAt hreal 0).skipSpace_append s

/-- A text that holds a value holds a whole number exactly if it is the decimal digits of this number
between blanks, and the number fits. -/
theorem all_value_eq_int_iff {x : String} (hj : Reader.all Reader.value x = .ok j) :
    j = .int n ↔ fitsWidth 63 64 n ∧ Alone (toString n).toList x.toList := by
  obtain ⟨rest, hvalue, hrest⟩ := all_eq_ok_iff_gives.1 hj
  constructor
  · rintro rfl
    cases valueAt_of_gives hvalue with
    | int h =>
        have hfits : fitsWidth 63 64 n := by
          rcases h.real_or_int with ⟨y, hy⟩ | ⟨m, hm, hfits⟩
          · cases hy
          · cases hm
            exact hfits
        refine ⟨hfits, x.toList.takeWhile isSpace, rest, List.all_eq_true.1 List.all_takeWhile,
          List.dropWhile_eq_nil_iff.1 hrest, ?_⟩
        rw [List.append_assoc, ← h.eq_toString]
        exact List.takeWhile_append_dropWhile.symm
  · rintro ⟨hfits, before, after, hbefore, hafter, hx⟩
    have hs : skipSpace x.toList = (toString n).toList ++ after := by
      rw [hx, List.append_assoc, skipSpace_append hbefore, skipSpace_toString_append]
    exact (hvalue.unique (gives_of_numberAt
      (numberAt_of_toString hfits hs (endsNumeral_of_isSpace hafter)))).1

end UtilityCss.Json
