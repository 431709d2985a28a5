import UtilityCss.Text.Blank
import UtilityCss.Value.Number

/-!
# Colors

A color is a hexadecimal triple, three channels with or without an opacity, or a word of letters: a
name is not looked up, so every word passes.
-/

namespace UtilityCss.Value
open Text

/-- Whether the text is `#` and three or six hexadecimal digits. -/
def isHexColor (s : List Char) : Bool :=
  match s with
  | '#' :: d => (d.length = 3 || d.length = 6) && d.all fun c => (hexValue? c).isSome
  | _        => false

/-- What follows one to three digits with any blanks around them. -/
def channel? (s : List Char) : Option (List Char) :=
  let t := s.dropWhile isBlank
  let n := (t.takeWhile isDigit).length
  if 1 ≤ n && n ≤ 3 then some ((t.drop n).dropWhile isBlank) else none

/-- What follows `n` channels, each with a comma behind it. -/
def channels? : Nat → List Char → Option (List Char)
  | 0,     s => some s
  | n + 1, s => (channel? s).bind fun r => (dropPrefix? [','] r).bind (channels? n)

def isRgb (s : List Char) : Bool :=
  ((dropPrefix? "rgb(".toList s).bind (channels? 2)).bind channel? = some [')']

/-- Whether the text is `0`, `1`, or a fraction with or without a `0` before the point. -/
def isAlpha (s : List Char) : Bool :=
  match s with
  | ['0'] | ['1'] => true
  | '0' :: f      => isFraction f
  | _             => isFraction s

def isRgba (s : List Char) : Bool :=
  match (dropPrefix? "rgba(".toList s).bind (channels? 3) with
  | some r => ((dropSuffix? [')'] (r.dropWhile isBlank)).map isAlpha).getD false
  | none   => false

def isColorName (s : List Char) : Bool :=
  s ≠ [] && s.all Char.isAlpha

def isColor (s : List Char) : Bool :=
  isHexColor s || isRgb s || isRgba s || isColorName s

end UtilityCss.Value
