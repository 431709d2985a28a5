import UtilityCss.Number.Binary64

/-!
# Shortest decimals

Every binary64 number is the nearest one to a whole interval of reals. Its shortest decimal is the
decimal in that interval with the fewest digits, and of those the nearest to the number. The search
goes through the grids of one, two, up to seventeen digits; if a point of a grid lies in the interval,
so does one of the number's two neighbours on that grid.

How a decimal is laid out is a separate decision, a `Layout`.
-/

namespace UtilityCss

/-- Which of two equally near decimals is written. -/
inductive TieRule where
  /-- The one whose last digit is even. -/
  | even
  /-- The greater one. -/
  | up
deriving DecidableEq, Repr

/-- The positive number `digits * 10 ^ exponent`. -/
structure Decimal where
  digits   : Nat
  exponent : Int
deriving DecidableEq, Repr

namespace Decimal

/-- The number of decimal digits; zero has one. -/
def digitCount (n : Nat) : Nat := (Nat.toDigits 10 n).length

/-- The position of the first digit of `num / den`, that is, the exponent of ten it stands for. -/
def leadingExponent (num den : Nat) : Int :=
  if den ≤ num then (digitCount (num / den) : Int) - 1
  else
    let t := digitCount (den / num)
    if den ≤ num * Nat.pow 10 (t - 1) then -((t : Int) - 1) else -(t : Int)

/-- The reals that round to a number, all over one denominator. -/
structure Interval where
  low       : Nat
  value     : Nat
  high      : Nat
  den       : Nat
  /-- Whether the ends belong to the interval. -/
  inclusive : Bool

/-- The interval of the positive number of size `mantissa * 2 ^ scale / 2 ^ 1074`. It is narrower
below a power of two. -/
def interval (mantissa scale : Nat) : Interval where
  low       :=
    (4 * mantissa - if mantissa = Nat.pow 2 52 ∧ 0 < scale then 1 else 2) * Nat.pow 2 scale
  value     := 4 * mantissa * Nat.pow 2 scale
  high      := (4 * mantissa + 2) * Nat.pow 2 scale
  den       := Nat.pow 2 1076
  inclusive := mantissa % 2 = 0

/-- The nearest decimal of the interval on the grid of `10 ^ g`, if there is one. -/
def onGrid? (i : Interval) (tie : TieRule) (g : Int) : Option Decimal :=
  let up := Nat.pow 10 (-g).toNat
  let unit := i.den * Nat.pow 10 g.toNat
  let inside (c : Nat) : Bool :=
    let x := c * unit
    if i.inclusive then i.low * up ≤ x && x ≤ i.high * up
    else i.low * up < x && x < i.high * up
  let v := i.value * up
  let below := v / unit
  let above := below + 1
  let toBelow := v - below * unit
  let toAbove := above * unit - v
  let preferAbove :=
    toAbove < toBelow || (toAbove = toBelow && (tie = .up || below % 2 = 1))
  match inside below, inside above with
  | true,  true  => some ⟨if preferAbove then above else below, g⟩
  | true,  false => some ⟨below, g⟩
  | false, true  => some ⟨above, g⟩
  | false, false => none

/-- The decimal with the last zeros of its digits moved into the exponent; `n` bounds their number. -/
def dropZeros : Nat → Decimal → Decimal
  | 0,     d => d
  | n + 1, d =>
    if d.digits % 10 = 0 ∧ 0 < d.digits then dropZeros n ⟨d.digits / 10, d.exponent + 1⟩ else d

/-- The shortest decimal of the positive number of size `mantissa * 2 ^ scale / 2 ^ 1074`. -/
def shortest (tie : TieRule) (mantissa scale : Nat) : Decimal :=
  let i := interval mantissa scale
  let e := leadingExponent i.value i.den
  let found := (List.range 17).findSome? fun n => onGrid? i tie (e - Int.ofNat n)
  let cut := i.value * Nat.pow 10 (-(e - 17)).toNat / (i.den * Nat.pow 10 (e - 17).toNat)
  dropZeros 17 (found.getD ⟨cut, e - 17⟩)

/-! ### Layout -/

/-- How numbers are laid out. -/
structure Layout where
  tie         : TieRule
  /-- The exponents of the first digit for which a number is written without an exponent, least and
  greatest; without bounds none is ever written. -/
  positional  : Option (Int × Int)
  /-- Whether a whole number is written with `.0`. -/
  pointZero   : Bool
  /-- The texts for positive infinity and for what is no number. -/
  infinity    : String
  notANumber  : String
deriving DecidableEq, Repr

/-- The digits of a decimal around the point, without an exponent. -/
def positionalText (pointZero : Bool) (digits : List Char) (exponent : Int) : List Char :=
  let n := (digits.length : Int) + exponent
  if 0 ≤ exponent then
    digits ++ List.replicate exponent.toNat '0' ++ (if pointZero then ['.', '0'] else [])
  else if 0 < n then digits.take n.toNat ++ '.' :: digits.drop n.toNat
  else '0' :: '.' :: (List.replicate (-n).toNat '0' ++ digits)

/-- The digits of a decimal with the point after the first one, and an exponent with its sign. -/
def scientificText (digits : List Char) (leading : Int) : List Char :=
  let mantissa := match digits with
    | [d]    => [d]
    | d :: r => d :: '.' :: r
    | []     => []
  mantissa ++ 'e' :: (if leading < 0 then '-' else '+') :: Nat.toDigits 10 leading.natAbs

/-- The text of a positive decimal. -/
def Layout.decimal (l : Layout) (d : Decimal) : List Char :=
  let digits := Nat.toDigits 10 d.digits
  let leading := (digits.length : Int) + d.exponent - 1
  let isPositional := match l.positional with
    | some (least, greatest) => least ≤ leading && leading ≤ greatest
    | none                   => true
  if isPositional then positionalText l.pointZero digits d.exponent
  else scientificText digits leading

/-- The text of a number. -/
def Layout.text (l : Layout) : Binary64 → String
  | .nan            => l.notANumber
  | .infinite s     => (if s then "-" else "") ++ l.infinity
  | .finite s m e   =>
    (if s then "-" else "") ++
      String.ofList (if m = 0 then (if l.pointZero then ['0', '.', '0'] else ['0'])
        else l.decimal (shortest l.tie m e))

end Decimal

end UtilityCss
