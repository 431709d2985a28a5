import UtilityCss.Proofs.Text
import UtilityCss.Text.Digit

/-!
# Texts in lower case

Lowering changes the capitals of ASCII and the Kelvin sign, and nothing else (`Text.lowerChar_eq_self`).
So what a class of characters says of a text it says of the text in lower case, if it takes each of these
for the letter that it becomes (`Text.apply_lowerChar`).
-/

namespace UtilityCss.Text

variable {c d : Char} {s : List Char}

/-- The sign of the unit kelvin, whose lower case is the letter `k`. -/
def kelvin : Char := '\u212a'

/-- The characters that lowering changes. -/
def capitals : List Char := kelvin :: "ABCDEFGHIJKLMNOPQRSTUVWXYZ".toList

theorem kelvin_mem_capitals : kelvin ∈ capitals := List.mem_cons_self

theorem lowerChar_eq_self (h : c ∉ capitals) : lowerChar c = c := by
  have hletter : ¬ ('A' ≤ c ∧ c ≤ 'Z') := by
    intro hc
    have hascii : c.toNat < 0x80 := (UInt32.le_iff_toNat_le.1 hc.2).trans_lt (by decide)
    have hall := forall_ascii (p := fun c => !('A' ≤ c ∧ c ≤ 'Z') || capitals.contains c)
      (by decide +kernel) hascii
    rw [decide_eq_true hc, Bool.not_true, Bool.false_or, List.contains_iff_mem] at hall
    exact h hall
  have hkelvin : c.toNat ≠ 0x212A := by
    intro hc
    have hc : c = kelvin := by
      rw [← Char.ofNat_toNat c, hc]
      rfl
    exact h (hc ▸ kelvin_mem_capitals)
  rw [lowerChar, if_neg hletter, if_neg hkelvin]

/-- A class that takes each capital for its letter takes every character for its lower case. -/
theorem apply_lowerChar {p : Char → Bool} (h : capitals.all fun c => p (lowerChar c) == p c)
    (c : Char) : p (lowerChar c) = p c := by
  by_cases hc : c ∈ capitals
  · simpa using List.all_eq_true.1 h c hc
  · rw [lowerChar_eq_self hc]

theorem isSome_hexValue?_lowerChar (c : Char) :
    (hexValue? (lowerChar c)).isSome = (hexValue? c).isSome :=
  apply_lowerChar (p := fun c => (hexValue? c).isSome) (by decide) c

/-- A character becomes a letter if it is one or the Kelvin sign. -/
theorem isAlpha_lowerChar (c : Char) : (lowerChar c).isAlpha = (c.isAlpha || c = kelvin) := by
  by_cases hc : c ∈ capitals
  · have hall : capitals.all fun c => (lowerChar c).isAlpha == (c.isAlpha || c = kelvin) := by decide
    simpa using List.all_eq_true.1 hall c hc
  · have hne : c ≠ kelvin := fun e => hc (e ▸ kelvin_mem_capitals)
    rw [lowerChar_eq_self hc, decide_eq_false hne, Bool.or_false]

/-- A class that has no capital holds no character that lowering changes. -/
theorem lowerChar_of_class {p : Char → Bool} (hp : capitals.all fun c => !p c) (h : p c) :
    lowerChar c = c := by
  refine lowerChar_eq_self fun hc => ?_
  have hnot := List.all_eq_true.1 hp c hc
  rw [h] at hnot
  cases hnot

/-- A character that is no capital and no lower case of one is the lower case of itself alone. -/
theorem lowerChar_eq_iff (h : capitals.all fun c => lowerChar c != d && c != d) :
    lowerChar c = d ↔ c = d := by
  by_cases hc : c ∈ capitals
  · have hne := List.all_eq_true.1 h c hc
    rw [Bool.and_eq_true, bne_iff_ne, bne_iff_ne] at hne
    exact iff_of_false hne.1 hne.2
  · rw [lowerChar_eq_self hc]

theorem mem_lower_iff (h : capitals.all fun c => lowerChar c != d && c != d) :
    d ∈ lower s ↔ d ∈ s := by
  simp only [lower, List.mem_map, lowerChar_eq_iff h, exists_eq_right]

theorem lower_eq_self (h : ∀ c ∈ s, lowerChar c = c) : lower s = s := by
  rw [lower, List.map_congr_left h, List.map_id']

end UtilityCss.Text
