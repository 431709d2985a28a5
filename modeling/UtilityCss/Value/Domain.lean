import UtilityCss.Text.Case
import UtilityCss.Value.Color
import UtilityCss.Value.Length

/-!
# Value domains

The sets of values that a rule may accept, one per kind of property. Membership is total: every text
is in a domain or outside it. Border and background values are matched without the blanks around them
and in lower case; all others as they are written.
-/

namespace UtilityCss.Value
open Text

/-- A set of values. -/
inductive Domain where
  | length | mathFunction | lengthOrMath | color | fontWeight | lineHeight | textAlign
  | textTransform | text | display | justifyContent | alignItems | opacity | zIndex | position
  | float | borderStyle | border | background | flex
  /-- Every text. -/
  | any
deriving DecidableEq, Repr

def borderStyles : List String :=
  ["none", "solid", "dashed", "dotted", "double", "groove", "ridge", "inset", "outset"]

/-- A value without the blanks around it and in lower case. -/
def folded (s : String) : List Char := lower (trim s.toList)

/-- Whether a part of a `flex` value is a growth factor, a shrink factor or a basis. -/
def isFlexPart (s : List Char) : Bool :=
  match unsigned? s with
  | some r => lengthUnits.any fun u => u.toList = r
  | none   => s = "auto".toList || s = "content".toList

/-- Whether a part of a border is a width, a style or a color. -/
def isBorderPart (s : String) : Bool :=
  isLength s.toList || borderStyles.contains s || isColor s.toList

def isTextAlign (s : String) : Bool := ["left", "right", "center", "justify"].contains s

def isTextTransform (s : String) : Bool :=
  ["uppercase", "lowercase", "capitalize", "none"].contains s

/-- Whether a value lies in a domain. -/
def Domain.accepts (d : Domain) (s : String) : Bool :=
  match d with
  | .length         => isLength s.toList
  | .mathFunction   => isMathFunction s.toList
  | .lengthOrMath   => isLengthOrMath s.toList
  | .color          => isColor s.toList
  | .fontWeight     =>
    ["100", "200", "300", "400", "500", "600", "700", "800", "900"].contains s
  | .lineHeight     => isInteger s.toList || s = "normal"
  | .textAlign      => isTextAlign s
  | .textTransform  => isTextTransform s
  | .text           =>
    isColor s.toList || isLengthOrMath s.toList || isTextAlign s || isTextTransform s
  | .display        =>
    ["block", "inline", "inline-block", "flex", "grid", "none", "inline-flex",
      "inline-grid"].contains s
  | .justifyContent =>
    ["flex-start", "flex-end", "center", "space-between", "space-around",
      "space-evenly"].contains s
  | .alignItems     => ["stretch", "flex-start", "flex-end", "center", "baseline"].contains s
  | .opacity        => isUnitInterval s.toList
  | .zIndex         => isInteger s.toList
  | .position       => ["static", "relative", "absolute", "fixed", "sticky"].contains s
  | .float          => ["left", "right", "none"].contains s
  | .borderStyle    => borderStyles.contains s
  | .border         => (split '_' (String.ofList (folded s))).all isBorderPart
  | .background     => folded s = "none".toList || isColor (folded s)
  | .flex           =>
    ["none", "auto", "initial"].contains s ||
      (let parts := split '_' s
       parts.length ≤ 3 && parts.all fun p => isFlexPart p.toList)
  | .any            => true

end UtilityCss.Value
