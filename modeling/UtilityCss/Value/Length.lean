import UtilityCss.Value.Number

/-!
# Lengths and math functions

A length is a numeral with or without a unit. A math function is a call of `calc`, `clamp`, `min` or
`max` whose closing parenthesis is the last character; what stands between is not looked at, except
that it is not empty and on one line.
-/

namespace UtilityCss.Value
open Text

/-- The units a length may have; the empty one stands for none. -/
def lengthUnits : List String := ["", "px", "em", "rem", "%", "vh", "vw"]

/-- The names of the math functions. -/
def mathFunctions : List String := ["calc", "clamp", "min", "max"]

def isLength (s : List Char) : Bool := isSigned lengthUnits s

/-- Whether the text is a call of `name` with arguments on one line. -/
def isCallOf (name : String) (s : List Char) : Bool :=
  match (dropPrefix? (name.toList ++ ['(']) s).bind (dropSuffix? [')']) with
  | some body => body ≠ [] && !body.contains '\n'
  | none      => false

def isMathFunction (s : List Char) : Bool := mathFunctions.any (isCallOf · s)

def isLengthOrMath (s : List Char) : Bool := isLength s || isMathFunction s

end UtilityCss.Value
