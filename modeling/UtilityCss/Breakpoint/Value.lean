import UtilityCss.Json.Printer
import UtilityCss.Number.Width
import UtilityCss.Text.Blank
import UtilityCss.Text.Digit

/-!
# Widths as they are configured

A configuration may give any value for a breakpoint. It is tried as a whole number, as any number and as
a text, in this order. Numbers and texts such as `990` or `990px` are widths if they fit; whatever else
stands there is kept, so that it can be reported.
-/

namespace UtilityCss
open Text

/-- What a configuration gives for a breakpoint. -/
inductive BreakpointValue where
  /-- A whole number from `-2 ^ 63` to `2 ^ 63 - 1`. -/
  | pixels (n : Int)
  /-- Any other number. -/
  | fractional (x : Binary64)
  | text (s : String)
  /-- Any other value, in sorted form. -/
  | other (value : Json)
deriving DecidableEq

namespace BreakpointValue

def pixels? : Json → Option BreakpointValue
  | .int n => if fitsWidth 63 63 n then some (pixels n) else none
  | _      => none

/-- Whole numbers are numbers too. -/
def fractional? : Json → Option BreakpointValue
  | .int n  => some (fractional (.ofRatio (n < 0) n.natAbs 1))
  | .real x => some (fractional x)
  | _       => none

def text? : Json → Option BreakpointValue
  | .string s => some (text s)
  | _         => none

def other? (a : Json) : Option BreakpointValue := some (other a.sorted)

/-- The first form that a value has. -/
def ofJson? (a : Json) : Option BreakpointValue :=
  [pixels?, fractional?, text?, other?].findSome? (· a)

def toJson : BreakpointValue → Json
  | pixels n     => .int n
  | fractional x => .real x
  | text s       => .string s
  | other a      => a

/-- One more than the greatest width. -/
def widthLimit : Nat := Nat.pow 2 32

/-- The width of a given number of pixels, if it fits. -/
def width? (negative : Bool) (n : Nat) : Option Nat :=
  if n = 0 then some 0
  else if negative ∨ widthLimit ≤ n then none
  else some n

/-- The number that decimal digits stand for. -/
def decimal? (s : List Char) : Option Nat :=
  if s ≠ [] ∧ s.all Char.isDigit then some (s.foldl (fun n c => 10 * n + digitValue c) 0) else none

/-- The width of a text: digits, behind a `+` or before `px` if they stand there. -/
def textWidth? (s : List Char) : Option Nat :=
  let s := trim s
  let digits := trim ((dropSuffix? "px".toList s).getD s)
  (decimal? ((dropPrefix? ['+'] digits).getD digits)).bind (width? false)

/-- The width that a value denotes. A fraction is cut off. -/
def toPixels? : BreakpointValue → Option Nat
  | pixels n     => width? (n < 0) n.natAbs
  | fractional x => x.floorSize?.bind (width? x.isNegative)
  | text s       => textWidth? s.toList
  | other _      => none

/-- A fractional width is written without an exponent. -/
def layout : Decimal.Layout where
  tie        := .up
  positional := none
  pointZero  := false
  infinity   := "inf"
  notANumber := "NaN"

/-- A value as it is shown in a report. -/
def display : BreakpointValue → String
  | pixels n     => toString n
  | fractional x => layout.text x
  | text s       => "\"" ++ s ++ "\""
  | other a      => a.compact

end BreakpointValue

end UtilityCss
