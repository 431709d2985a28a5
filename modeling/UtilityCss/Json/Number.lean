import UtilityCss.Json.Error
import UtilityCss.Text.Digit

/-!
# Reading JSON numbers

A numeral without fraction and exponent is a whole number if it fits, below zero `-2 ^ 63` and above
`2 ^ 64 - 1`; `-0` does not count as one. Any other numeral is a binary64 number, found in three
steps: the digits are gathered into a whole number as long as it stays below `2 ^ 64`, digits beyond
that only move the exponent or are dropped, and the number is then multiplied or divided by a power of
ten. Both steps round, so the result is not always the number nearest to the numeral.
-/

namespace UtilityCss.Json
open Text

/-- What has been gathered of a numeral: the number `significand * 10 ^ exponent`. -/
structure Gathered where
  significand : Nat
  exponent    : Int
deriving DecidableEq, Repr

/-- The significand with one more digit, if there is room. -/
def Gathered.push? (g : Gathered) (c : Char) : Option Nat :=
  let n := g.significand * 10 + digitValue c
  if n < Nat.pow 2 64 then some n else none

/-- Gathers digits before the point: from the first that does not fit, each counts as a place. -/
def Gathered.whole (g : Gathered) : List Char → Gathered
  | []     => g
  | c :: s =>
    match g.push? c with
    | some n => whole ⟨n, g.exponent⟩ s
    | none   => ⟨g.significand, g.exponent + (s.length + 1)⟩

/-- Gathers digits behind the point: from the first that does not fit, they are dropped. -/
def Gathered.fraction (g : Gathered) : List Char → Gathered
  | []     => g
  | c :: s =>
    match g.push? c with
    | some n => fraction ⟨n, g.exponent - 1⟩ s
    | none   => g

/-- A number divided by `10 ^ n`, by `10 ^ 308` at a time. -/
def divTenPow (x : Binary64) (n : Nat) : Binary64 :=
  if n ≤ 308 then x.div (.tenPow n)
  else
    let y := x.div (.tenPow 308)
    if y = .zero false then y else divTenPow y (n - 308)
termination_by n
decreasing_by omega

/-- The number gathered, in binary. -/
def Gathered.toReal (g : Gathered) : Except Error Binary64 :=
  let x := Binary64.ofNat g.significand
  if g.exponent < 0 then .ok (divTenPow x g.exponent.natAbs)
  else if g.significand = 0 then .ok x
  else if 308 < g.exponent then .error .numberOutOfRange
  else
    let y := x.mul (.tenPow g.exponent.natAbs)
    if y.isFinite then .ok y else .error .numberOutOfRange

/-- The value of decimal digits. -/
def digitsValue (s : List Char) : Nat :=
  s.foldl (fun n c => n * 10 + digitValue c) 0

/-- The greatest exponent that is read as a number; behind it lie only zero and no number at all. -/
def maxExponent : Nat := Nat.pow 2 31 - 1

/-- A sign at the head of a text, and what follows it. -/
def splitSign (s : List Char) : Bool × List Char :=
  match s with
  | '+' :: r => (true, r)
  | '-' :: r => (false, r)
  | _        => (true, s)

/-- The digits at the head of a text, of which there must be one, and what follows them. -/
def someDigits (s : List Char) : Except Error (List Char × List Char) :=
  match s with
  | []     => .error .valueEnds
  | c :: r =>
    if c.isDigit then .ok (c :: r.takeWhile Char.isDigit, r.dropWhile Char.isDigit)
    else .error .invalidNumber

/-- The number `g` moved by an exponent. -/
def Gathered.shift (g : Gathered) (positive : Bool) (n : Nat) : Except Error Binary64 :=
  if n ≤ maxExponent then
    toReal ⟨g.significand, if positive then g.exponent + n else g.exponent - n⟩
  else if g.significand ≠ 0 ∧ positive then .error .numberOutOfRange
  else .ok (.zero false)

/-- Reads an exponent, `s` being what follows the `e`. -/
def exponentFrom (g : Gathered) (s : List Char) : Except Error (Binary64 × List Char) := do
  let (positive, s) := splitSign s
  let (digits, rest) ← someDigits s
  let x ← g.shift positive (digitsValue digits)
  return (x, rest)

/-- Reads the exponent that may follow a numeral, or nothing. -/
def realFrom (g : Gathered) (s : List Char) : Except Error (Binary64 × List Char) := do
  match s with
  | 'e' :: r | 'E' :: r => exponentFrom g r
  | _ =>
    let x ← g.toReal
    return (x, s)

/-- Reads a fraction, `s` being what follows the point. -/
def fractionFrom (g : Gathered) (s : List Char) : Except Error (Binary64 × List Char) := do
  let (digits, rest) ← someDigits s
  realFrom (g.fraction digits) rest

/-- The whole number of a numeral without fraction and exponent, if it is one. -/
def Gathered.toInt? (g : Gathered) (negative : Bool) : Option Int :=
  if g.exponent ≠ 0 then none
  else if !negative then some g.significand
  else if 0 < g.significand ∧ g.significand ≤ Nat.pow 2 63 then some (-(g.significand : Int))
  else none

/-- Reads what follows the digits before the point. -/
def numeralFrom (negative : Bool) (g : Gathered) (s : List Char) :
    Except Error (Json × List Char) := do
  let signed (p : Binary64 × List Char) : Json × List Char :=
    (.real (if negative then p.1.neg else p.1), p.2)
  match s with
  | '.' :: r            => signed <$> fractionFrom g r
  | 'e' :: r | 'E' :: r => signed <$> exponentFrom g r
  | _ =>
    match g.toInt? negative with
    | some n => return (.int n, s)
    | none   => (fun x => signed (x, s)) <$> g.toReal

/-- Reads an unsigned numeral; `negative` says what sign stood before it. Zero stands alone before
the point. -/
def numeral (negative : Bool) (s : List Char) : Except Error (Json × List Char) := do
  let (digits, rest) ← someDigits s
  if digits.head? = some '0' ∧ digits ≠ ['0'] then throw .invalidNumber
  numeralFrom negative (Gathered.whole ⟨0, 0⟩ digits) rest

/-! ### What is left of the text -/

theorem ok_of_bind {ε α β : Type} {x : Except ε α} {f : α → Except ε β} {b : β}
    (h : (x >>= f) = .ok b) : ∃ a, x = .ok a ∧ f a = .ok b := by
  cases x with
  | error e => cases h
  | ok a => exact ⟨a, rfl, h⟩

theorem ok_of_map {ε α β : Type} {x : Except ε α} {f : α → β} {b : β} (h : (f <$> x) = .ok b) :
    ∃ a, x = .ok a ∧ f a = b := by
  cases x with
  | error e => cases h
  | ok a => exact ⟨a, rfl, by cases h; rfl⟩

theorem length_lt_of_someDigits {s d r : List Char} (h : someDigits s = .ok (d, r)) :
    r.length < s.length := by
  cases s with
  | nil => cases h
  | cons c s =>
    simp only [someDigits] at h
    split at h
    · cases h
      exact Nat.lt_succ_of_le (List.dropWhile_suffix _).length_le
    · cases h

theorem length_splitSign_le (s : List Char) : (splitSign s).2.length ≤ s.length := by
  simp only [splitSign]
  split <;> simp

theorem length_le_of_exponentFrom {g : Gathered} {s r : List Char} {x : Binary64}
    (h : exponentFrom g s = .ok (x, r)) : r.length ≤ s.length := by
  obtain ⟨⟨d, r'⟩, hd, h⟩ := ok_of_bind h
  obtain ⟨y, -, h⟩ := ok_of_bind h
  cases h
  exact Nat.le_trans (Nat.le_of_lt (length_lt_of_someDigits hd)) (length_splitSign_le s)

theorem length_le_of_realFrom {g : Gathered} {s r : List Char} {x : Binary64}
    (h : realFrom g s = .ok (x, r)) : r.length ≤ s.length := by
  simp only [realFrom] at h
  split at h
  · exact Nat.le_succ_of_le (length_le_of_exponentFrom h)
  · exact Nat.le_succ_of_le (length_le_of_exponentFrom h)
  · obtain ⟨y, -, h⟩ := ok_of_bind h
    cases h
    exact Nat.le_refl _

theorem length_le_of_fractionFrom {g : Gathered} {s r : List Char} {x : Binary64}
    (h : fractionFrom g s = .ok (x, r)) : r.length ≤ s.length := by
  obtain ⟨⟨d, r'⟩, hd, h⟩ := ok_of_bind h
  exact Nat.le_trans (length_le_of_realFrom h) (Nat.le_of_lt (length_lt_of_someDigits hd))

theorem length_le_of_numeralFrom {b : Bool} {g : Gathered} {s r : List Char} {v : Json}
    (h : numeralFrom b g s = .ok (v, r)) : r.length ≤ s.length := by
  simp only [numeralFrom] at h
  split at h
  · obtain ⟨p, hp, h⟩ := ok_of_map h
    cases h
    exact Nat.le_succ_of_le (length_le_of_fractionFrom hp)
  · obtain ⟨p, hp, h⟩ := ok_of_map h
    cases h
    exact Nat.le_succ_of_le (length_le_of_exponentFrom hp)
  · obtain ⟨p, hp, h⟩ := ok_of_map h
    cases h
    exact Nat.le_succ_of_le (length_le_of_exponentFrom hp)
  · split at h
    · cases h
      exact Nat.le_refl _
    · obtain ⟨p, -, h⟩ := ok_of_map h
      cases h
      exact Nat.le_refl _

theorem length_lt_of_numeral {b : Bool} {s r : List Char} {v : Json}
    (h : numeral b s = .ok (v, r)) : r.length < s.length := by
  obtain ⟨⟨d, r'⟩, hd, h⟩ := ok_of_bind h
  have hn : numeralFrom b (Gathered.whole ⟨0, 0⟩ d) r' = .ok (v, r) := by
    dsimp only at h
    split at h
    · obtain ⟨_, hc, _⟩ := ok_of_bind h
      cases hc
    · exact h
  exact Nat.lt_of_le_of_lt (length_le_of_numeralFrom hn) (length_lt_of_someDigits hd)

end UtilityCss.Json
