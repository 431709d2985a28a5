import UtilityCss.Math.Spacing
import UtilityCss.Value.Domain

/-!
# Declarations

How a rule turns a value into declarations. A value keeps its letters and blanks; only math calls are
respaced, unitless spacing gets `px`, and `_` becomes a space where a property takes several values.
A generator answers for every value, also for one that the rule's domain refuses.
-/

namespace UtilityCss
open Text Value

/-- The text of one declaration. -/
def declaration (property value : String) : String :=
  property ++ ": " ++ value ++ ";"

/-- How a rule turns a value into declarations. -/
inductive Generator where
  /-- The value as it is. -/
  | plain (property : String)
  /-- The value with every math call respaced. -/
  | length (property : String)
  /-- The value with a math call at its head respaced. -/
  | leadingMath (property : String)
  /-- One declaration for each side of a box, or one for the box if no side is named. -/
  | spacing (property : String) (sides : List String)
  /-- A color, an alignment, a transformation or a font size. -/
  | text
  /-- A background color, or another background. -/
  | background
  /-- A width, a style or a color of a border, or several of them. -/
  | border
  /-- The parts of a flexible length. -/
  | flex
deriving DecidableEq, Repr

namespace Generator

/-- The units for which a single border value is a width. -/
def borderWidthUnits : List String := ["", "px", "em", "rem"]

/-- A spacing value: math calls are respaced, and a number gets the unit `px`. -/
def spacingValue (value : String) : String :=
  let v := Math.normalize value
  if isSigned [""] v.toList then v ++ "px" else v

/-- The property that a `text` value belongs to, and the value as it is written there. -/
def textDeclaration (value : String) : String :=
  if isColor value.toList then declaration "color" value
  else if isTextAlign value then declaration "text-align" value
  else if isTextTransform value then declaration "text-transform" value
  else declaration "font-size" (Math.normalize value)

def backgroundProperty (value : String) : String :=
  if folded value ≠ "none".toList ∧ isColor (folded value) then "background-color" else "background"

def borderDeclaration (value : String) : String :=
  if isSigned borderWidthUnits (folded value) then declaration "border-width" value
  else if borderStyles.contains (String.ofList (folded value)) then declaration "border-style" value
  else if isColor value.toList then declaration "border-color" value
  else declaration "border" (replaceChar '_' ' ' value)

/-- The declarations for a value. -/
def declarations (g : Generator) (value : String) : String :=
  match g with
  | plain p         => declaration p value
  | length p        => declaration p (Math.normalize value)
  | leadingMath p   => declaration p (Math.normalizeLeading value)
  | spacing p []    => declaration p (spacingValue value)
  | spacing p sides =>
    " ".intercalate (sides.map fun side => declaration (p ++ "-" ++ side) (spacingValue value))
  | text            => textDeclaration value
  | background      => declaration (backgroundProperty value) value
  | border          => borderDeclaration value
  | flex            => declaration "flex" (replaceChar '_' ' ' value)

end Generator

end UtilityCss
