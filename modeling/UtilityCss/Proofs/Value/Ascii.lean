import UtilityCss.Breakpoint.Value
import UtilityCss.Proofs.Json.Integer
import UtilityCss.Proofs.Value.Alphabet
import Mathlib.Algebra.Field.Rat
import Mathlib.Algebra.Order.Field.Basic
import Mathlib.Algebra.Order.Ring.Rat

/-!
# Numerals in ASCII

The value grammars read the digits of every script, and in the channels of a color the blanks of every
script, so a numeral need not be ASCII. Nothing else outside ASCII is in a value of these domains
(`Domain.alphabet_isForeign`), so a value without such digits and blanks is ASCII, and its digits are
`0` to `9` (`Domain.isAscii_iff`). An opacity is then a decimal with a value from 0 to 1, and otherwise
it is no decimal at all (`isAscii_iff_decimalValue?`).
-/

namespace UtilityCss.Value
open Text Json

variable {s w f : List Char} {c : Char} {n m : Nat} {q : ℚ}

/-- A text of ASCII characters alone. -/
def IsAscii (s : List Char) : Prop := ∀ c ∈ s, c.toNat < 0x80

instance (s : List Char) : Decidable (IsAscii s) := List.decidableBAll _ s

theorem toNat_lt_of_isDigit (h : c.isDigit) : c.toNat < 0x80 :=
  toNat_lt_of_isAlphanum ((Bool.or_eq_true c.isAlpha c.isDigit).mpr (.inr h))

/-- The digits in ASCII are those from `0` to `9`. -/
theorem isDigit_of_lt (hc : c.toNat < 0x80) (h : isDigit c) : c.isDigit := by
  rwa [isDigit, if_pos hc] at h

/-! ### Decimals -/

/-- The number that a decimal stands for: digits from `0` to `9`, and a point with more of them if
it has a fraction. -/
def decimalValue? (s : List Char) : Option ℚ :=
  match s.splitOn '.' with
  | [w]    => (BreakpointValue.decimal? w).map fun (n : Nat) => (n : ℚ)
  | [w, f] =>
    (BreakpointValue.decimal? w).bind fun n =>
      (BreakpointValue.decimal? f).map fun (m : Nat) => (n : ℚ) + m / 10 ^ f.length
  | _      => none

theorem decimal?_eq_some_iff : BreakpointValue.decimal? s = some n ↔
    (s ≠ [] ∧ ∀ c ∈ s, c.isDigit) ∧ s.foldl (fun n c => 10 * n + digitValue c) 0 = n := by
  simp [BreakpointValue.decimal?]

theorem isAscii_of_decimal? (h : BreakpointValue.decimal? s = some n) : IsAscii s :=
  fun c hc => toNat_lt_of_isDigit ((decimal?_eq_some_iff.1 h).1.2 c hc)

theorem point_not_mem_of_decimal? (h : BreakpointValue.decimal? s = some n) : '.' ∉ s :=
  fun hmem => absurd ((decimal?_eq_some_iff.1 h).1.2 '.' hmem) (by decide)

theorem foldl_digitValue_lt (h : ∀ c ∈ s, c.isDigit) (n : Nat) :
    s.foldl (fun n c => 10 * n + digitValue c) n < (n + 1) * 10 ^ s.length := by
  induction s generalizing n with
  | nil => simp
  | cons c s ih =>
      obtain ⟨hc, hs⟩ := List.forall_mem_cons.1 h
      have hvalue := (toNat_of_isDigit hc).1
      calc s.foldl (fun n c => 10 * n + digitValue c) (10 * n + digitValue c)
          < (10 * n + digitValue c + 1) * 10 ^ s.length := ih hs _
        _ ≤ ((n + 1) * 10) * 10 ^ s.length := Nat.mul_le_mul_right _ (by omega)
        _ = (n + 1) * 10 ^ (c :: s).length := by rw [List.length_cons, Nat.pow_succ', mul_assoc]

theorem foldl_digitValue_of_zeros (h : ∀ c ∈ s, c = '0') :
    s.foldl (fun n c => 10 * n + digitValue c) 0 = 0 := by
  induction s with
  | nil => rfl
  | cons c s ih =>
      obtain ⟨rfl, hs⟩ := List.forall_mem_cons.1 h
      exact ih hs

theorem decimalValue?_of_decimal? (h : BreakpointValue.decimal? w = some n) :
    decimalValue? w = some (n : ℚ) := by
  have hsplit : w.splitOn '.' = [w] := List.splitOn_eq_singleton (point_not_mem_of_decimal? h)
  simp only [decimalValue?, hsplit, h, Option.map_some]

theorem decimalValue?_append (hw : BreakpointValue.decimal? w = some n)
    (hf : BreakpointValue.decimal? f = some m) :
    decimalValue? (w ++ '.' :: f) = some ((n : ℚ) + m / 10 ^ f.length) := by
  have hsplit : (w ++ '.' :: f).splitOn '.' = [w, f] := by
    rw [List.splitOn_append_cons_self_of_not_mem (point_not_mem_of_decimal? hw),
      List.splitOn_eq_singleton (point_not_mem_of_decimal? hf)]
  simp only [decimalValue?, hsplit, hw, hf, Option.bind_some, Option.map_some]

example : decimalValue? "0.250".toList = some (1 / 4) := by decide +kernel

/-- A decimal is digits and a point. -/
theorem isAscii_of_decimalValue? (h : decimalValue? s = some q) : IsAscii s := by
  have hparts : ['.'].intercalate (s.splitOn '.') = s := List.intercalate_splitOn '.'
  rw [← hparts]
  unfold decimalValue? at h
  split at h
  · rename_i w hsplit
    obtain ⟨n, hw, -⟩ := Option.map_eq_some_iff.1 h
    simpa [hsplit] using isAscii_of_decimal? hw
  · rename_i w f hsplit
    obtain ⟨n, hw, h⟩ := Option.bind_eq_some_iff.1 h
    obtain ⟨m, hf, -⟩ := Option.map_eq_some_iff.1 h
    have hpoint : IsAscii ['.'] := by decide
    rw [hsplit, List.intercalate_cons_cons, List.intercalate_singleton]
    exact List.forall_mem_append.2 ⟨List.forall_mem_append.2 ⟨isAscii_of_decimal? hw, hpoint⟩,
      isAscii_of_decimal? hf⟩
  · cases h

/-! ### Opacities -/

/-- A fraction is less than one. -/
theorem div_pow_mem_unitInterval (h : m < 10 ^ n) : 0 ≤ (m : ℚ) / 10 ^ n ∧ (m : ℚ) / 10 ^ n ≤ 1 := by
  have hpos : (0 : ℚ) < 10 ^ n := pow_pos (by norm_num) n
  refine ⟨div_nonneg (Nat.cast_nonneg m) hpos.le, (div_le_one hpos).2 ?_⟩
  exact_mod_cast h.le

/-- An opacity in ASCII is a decimal from 0 to 1. -/
theorem exists_decimalValue?_of_isUnitInterval (h : isUnitInterval s) (ha : IsAscii s) :
    ∃ q, decimalValue? s = some q ∧ 0 ≤ q ∧ q ≤ 1 := by
  have hzero : BreakpointValue.decimal? ['0'] = some 0 := by decide
  have hone : BreakpointValue.decimal? ['1'] = some 1 := by decide
  rcases isUnitInterval_cases h with rfl | rfl | ⟨f, rfl, hne, hf⟩ | ⟨f, rfl, hne, hf⟩
  · exact ⟨_, decimalValue?_of_decimal? hzero, by norm_num, by norm_num⟩
  · exact ⟨_, decimalValue?_of_decimal? hone, by norm_num, by norm_num⟩
  · have hdigits : ∀ c ∈ f, c.isDigit := fun c hc =>
      isDigit_of_lt (ha c (List.mem_append_right ['0', '.'] hc)) (hf c hc)
    refine ⟨_, decimalValue?_append hzero (decimal?_eq_some_iff.2 ⟨⟨hne, hdigits⟩, rfl⟩), ?_⟩
    have hlt := foldl_digitValue_lt hdigits 0
    rw [Nat.zero_add, Nat.one_mul] at hlt
    simpa using div_pow_mem_unitInterval hlt
  · have hdigits : ∀ c ∈ f, c.isDigit := fun c hc => hf c hc ▸ (by decide : '0'.isDigit)
    refine ⟨_, decimalValue?_append hone (decimal?_eq_some_iff.2
      ⟨⟨hne, hdigits⟩, foldl_digitValue_of_zeros hf⟩), ?_⟩
    norm_num

theorem isAscii_iff_decimalValue? (h : isUnitInterval s) :
    IsAscii s ↔ ∃ q, decimalValue? s = some q ∧ 0 ≤ q ∧ q ≤ 1 :=
  ⟨exists_decimalValue?_of_isUnitInterval h, fun ⟨_, hq, _⟩ => isAscii_of_decimalValue? hq⟩

/-! ### Domains of numerals -/

/-- A digit of another script or, in a color, a blank of another script. -/
def Domain.IsForeign (d : Domain) (c : Char) : Prop :=
  0x80 ≤ c.toNat ∧ (isDigit c ∨ d = .color ∧ isBlank c)

/-- The characters of which values are made are ASCII up to digits and, in a color, blanks. -/
theorem Domain.alphabet_isForeign (d : Domain) :
    d.Alphabet fun c => 0x80 ≤ c.toNat → d.IsForeign c where
  digit _ hc hge      := ⟨hge, .inl hc⟩
  blank hd _ hc hge   := ⟨hge, .inr ⟨hd, hc⟩⟩
  letter _ hc hge     := absurd (toNat_lt_of_isAlphanum hc) hge.not_gt
  sign c hc hge       := absurd ((by decide : IsAscii signs) c hc) hge.not_gt

/-- **Values in ASCII.** A value of a numeric domain is ASCII exactly if none of its digits is of
another script, and no blank of a color is; then its digits are `0` to `9`. An opacity is ASCII exactly
if it is a decimal from 0 to 1. -/
theorem Domain.isAscii_iff {d : Domain} (hd : d ∈ numericDomains) {v : String} (h : d.accepts v) :
    (IsAscii v.toList ↔ ∀ c ∈ v.toList, ¬ d.IsForeign c) ∧
    (IsAscii v.toList → ∀ c ∈ v.toList, isDigit c → c.isDigit) ∧
    (d = .opacity →
      (IsAscii v.toList ↔ ∃ q, decimalValue? v.toList = some q ∧ 0 ≤ q ∧ q ≤ 1)) := by
  refine ⟨⟨fun ha c hc hforeign => ?_, fun hnone c hc => ?_⟩, fun ha c hc => ?_, ?_⟩
  · exact absurd (ha c hc) hforeign.1.not_gt
  · by_contra hge
    exact hnone c hc (d.alphabet_isForeign.forall_of_accepts hd h c hc (Nat.le_of_not_lt hge))
  · exact isDigit_of_lt (ha c hc)
  · rintro rfl
    exact isAscii_iff_decimalValue? h

/-- At an opacity in ASCII and at one with a digit of another script. -/
theorem Domain.isAscii_iff_opacity :
    (Domain.opacity.accepts "0.25" ∧
      ∃ q, decimalValue? "0.25".toList = some q ∧ 0 ≤ q ∧ q ≤ 1) ∧
    (Domain.opacity.accepts "0.2\u0665" ∧
      ¬ ∃ q, decimalValue? "0.2\u0665".toList = some q ∧ 0 ≤ q ∧ q ≤ 1) := by
  have hplain : Domain.opacity.accepts "0.25" := by decide
  have hforeign : Domain.opacity.accepts "0.2\u0665" := by decide
  refine ⟨⟨hplain, ?_⟩, hforeign, fun hdecimal => ?_⟩
  · exact ((Domain.isAscii_iff (by decide) hplain).2.2 rfl).1 (by decide)
  · have hascii := ((Domain.isAscii_iff (by decide) hforeign).2.2 rfl).2 hdecimal
    exact absurd hascii (by decide)

/-- Digits of other scripts are read in every numeric domain, and so are blanks in a color. -/
theorem Domain.accepts_not_isAscii :
    (Domain.opacity.accepts "0.\u0665" ∧ ¬ IsAscii "0.\u0665".toList ∧
      decimalValue? "0.\u0665".toList = none) ∧
    (Domain.length.accepts "\u0661px" ∧ ¬ IsAscii "\u0661px".toList) ∧
    (Domain.zIndex.accepts "-\u0661" ∧ ¬ IsAscii "-\u0661".toList) ∧
    (Domain.lineHeight.accepts "\u0661" ∧ ¬ IsAscii "\u0661".toList) ∧
    (Domain.flex.accepts "1_\u0661_auto" ∧ ¬ IsAscii "1_\u0661_auto".toList) ∧
    (Domain.color.accepts "rgb(1,\u00a02,3)" ∧ ¬ IsAscii "rgb(1,\u00a02,3)".toList) := by
  decide +kernel

end UtilityCss.Value
