/-!
# Whole numbers of limited width

Formats keep whole numbers in a fixed number of bits, some of them with a sign. A number fits or it
does not; none is ever cut.
-/

namespace UtilityCss

/-- Whether a whole number is at least `-2 ^ below` and less than `2 ^ above`. -/
def fitsWidth (below above : Nat) : Int → Bool
  | .ofNat n   => n < Nat.pow 2 above
  | .negSucc n => n < Nat.pow 2 below

/-- A number that fits still fits where there is more room. -/
theorem fitsWidth_mono {below above below' above' : Nat} {n : Int} (hb : below ≤ below')
    (ha : above ≤ above') (h : fitsWidth below above n) : fitsWidth below' above' n := by
  cases n <;> simp only [fitsWidth, decide_eq_true_eq] at h ⊢
  · exact Nat.lt_of_lt_of_le h (Nat.pow_le_pow_right (by decide) ha)
  · exact Nat.lt_of_lt_of_le h (Nat.pow_le_pow_right (by decide) hb)

end UtilityCss
