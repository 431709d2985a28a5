/-!
# Numbers of 64 bits in binary

Fractional widths are binary64 numbers: 53 bits of precision, exponents down to -1074, signed zeros,
infinities and a value that is no number. A finite one is held exactly, as a multiple of the least
positive number, so every question about it is one about natural numbers. Operations work exactly and
round their result once, to the nearest number, a tie going to the even neighbour.
-/

namespace UtilityCss

/-- A binary64 number. Operations return it in lowest terms: the mantissa is below `2 ^ 53`, and at
least `2 ^ 52` unless the scale is zero. -/
inductive Binary64 where
  /-- The number of size `mantissa * 2 ^ scale / 2 ^ 1074`. -/
  | finite (negative : Bool) (mantissa scale : Nat)
  | infinite (negative : Bool)
  | nan
deriving DecidableEq, Repr

namespace Binary64

/-- The quotient rounded to the nearest whole number, a tie to the even one. -/
def roundDiv (num den : Nat) : Nat :=
  let q := num / den
  let r := num % den
  if 2 * r < den ∨ (2 * r = den ∧ q % 2 = 0) then q else q + 1

/-- Half the distance from one whole number to the next is the furthest that rounding moves. -/
theorem roundDiv_near {num den : Nat} (h : 0 < den) :
    2 * num ≤ 2 * den * roundDiv num den + den ∧ 2 * den * roundDiv num den ≤ 2 * num + den := by
  have hq := Nat.div_add_mod num den
  have hr := Nat.mod_lt num h
  simp only [roundDiv]
  generalize num / den = q at *
  generalize num % den = r at *
  have e : 2 * den * (q + 1) = 2 * (den * q) + 2 * den := by
    rw [Nat.mul_add, Nat.mul_assoc, Nat.mul_one]
  have e' : 2 * den * q = 2 * (den * q) := Nat.mul_assoc _ _ _
  split <;> simp only [e, e'] <;> omega

/-- The greatest scale of a finite number. -/
def maxScale : Nat := 2045

/-- The number nearest to `num / den`. -/
def ofRatio (negative : Bool) (num den : Nat) : Binary64 :=
  let n := num * Nat.pow 2 1074
  let scale := (n / den).log2 - 52
  let m := roundDiv n (den * Nat.pow 2 scale)
  let (m, scale) := if m = Nat.pow 2 53 then (Nat.pow 2 52, scale + 1) else (m, scale)
  if scale ≤ maxScale then finite negative m scale else infinite negative

def ofNat (n : Nat) : Binary64 := ofRatio false n 1

def zero (negative : Bool) : Binary64 := finite negative 0 0

def neg : Binary64 → Binary64
  | finite s m e => finite (!s) m e
  | infinite s   => infinite !s
  | nan          => nan

def isFinite : Binary64 → Bool
  | finite .. => true
  | _         => false

/-- Whether a number has a minus sign, as the zero `-0` has. -/
def isNegative : Binary64 → Bool
  | finite s .. | infinite s => s
  | nan                      => false

/-- The whole part of the size of a finite number. -/
def floorSize? : Binary64 → Option Nat
  | finite _ m e => some (m * Nat.pow 2 e / Nat.pow 2 1074)
  | _            => none

/-- The number nearest to `10 ^ n`. -/
def tenPow (n : Nat) : Binary64 := ofRatio false (Nat.pow 10 n) 1

/-- The number nearest to `digits * 10 ^ exponent`. Exponents far out need no arithmetic. -/
def ofDecimal (negative : Bool) (digits : Nat) (exponent : Int) : Binary64 :=
  let places := ((Nat.toDigits 10 digits).length : Int) + exponent
  if digits = 0 ∨ places < -330 then finite negative 0 0
  else if 310 < places then infinite negative
  else ofRatio negative (digits * Nat.pow 10 exponent.toNat) (Nat.pow 10 (-exponent).toNat)

/-- The product of two finite numbers; others are not multiplied here. -/
def mul : Binary64 → Binary64 → Binary64
  | finite s m e, finite s' m' e' =>
    ofRatio (s != s') (m * m' * Nat.pow 2 (e + e')) (Nat.pow 2 2148)
  | _, _ => nan

/-- The quotient of two finite numbers, the second not zero. -/
def div : Binary64 → Binary64 → Binary64
  | finite s m e, finite s' m' e' =>
    ofRatio (s != s') (m * Nat.pow 2 e) (m' * Nat.pow 2 e')
  | _, _ => nan

end Binary64

end UtilityCss
