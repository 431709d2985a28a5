import UtilityCss.Text.Digit
import UtilityCss.Text.Basic

/-!
# Numerals in values

The shapes of numeral that the value grammars share. A reader takes a numeral off the head of a text
and returns what follows; it takes as many digits as there are, so what follows never begins with a
digit that could have belonged to the numeral.
-/

namespace UtilityCss.Value
open Text

/-- What follows one or more digits. -/
def digits? (s : List Char) : Option (List Char) :=
  match s with
  | c :: s => if isDigit c then some (s.dropWhile isDigit) else none
  | []     => none

/-- What follows a numeral without sign: digits, and a point with digits if both are there. -/
def unsigned? (s : List Char) : Option (List Char) :=
  (digits? s).map fun r =>
    match r with
    | '.' :: f => (digits? f).getD r
    | _        => r

/-- What follows a sign, if there is one. -/
def dropMinus (s : List Char) : List Char :=
  match s with
  | '-' :: r => r
  | _        => s

/-- Whether the whole text is a numeral, perhaps negative, and one of `units`. -/
def isSigned (units : List String) (s : List Char) : Bool :=
  match unsigned? (dropMinus s) with
  | some r => units.any fun u => u.toList = r
  | none   => false

/-- Whether the whole text is digits, perhaps negative. -/
def isInteger (s : List Char) : Bool :=
  digits? (dropMinus s) = some []

/-- Whether the whole text is a point and digits. -/
def isFraction (s : List Char) : Bool :=
  match s with
  | '.' :: f => digits? f = some []
  | _        => false

/-- Whether the text is a decimal from 0 to 1: `0` with any fraction, or `1` with zeros alone. -/
def isUnitInterval (s : List Char) : Bool :=
  match s with
  | ['0'] | ['1']       => true
  | '0' :: f            => isFraction f
  | '1' :: '.' :: c :: f => (c :: f).all (· = '0')
  | _                   => false

end UtilityCss.Value
