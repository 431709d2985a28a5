import UtilityCss.Json.Printer
import UtilityCss.Text.Visible

/-!
# Why a text is not the JSON that was asked for

A reader knows what it is to read, so it fails where the text first departs from JSON or from what
was asked for, whichever comes first. Every failure is one cause, and its wording is `Error.message`.
-/

namespace UtilityCss.Json

/-- What a reader asks for. -/
inductive Shape where
  | string | sequence | map | unit | variant
  /-- The record of the given name. -/
  | record (name : String)
deriving DecidableEq, Repr

def Shape.text : Shape → String
  | string   => "a string"
  | sequence => "a sequence"
  | map      => "a map"
  | unit     => "unit"
  | variant  => "variant identifier"
  | record n => "struct " ++ n

/-- What stood where something else was asked for. -/
inductive Found where
  | null
  | bool (b : Bool)
  | int (n : Int)
  | real (x : Binary64)
  | string (s : String)
  | sequence
  | map
deriving DecidableEq, Repr

def Found.text : Found → String
  | null     => "null"
  | bool b   => "boolean `" ++ (if b then "true" else "false") ++ "`"
  | int n    => "integer `" ++ toString n ++ "`"
  | real x   => "floating point `" ++ realText x ++ "`"
  | string s => "string " ++ Text.quote s
  | sequence => "sequence"
  | map      => "map"

/-- Why a text cannot be read. -/
inductive Error where
  | valueEnds | listEnds | objectEnds | stringEnds
  | expectedColon | expectedListEnd | expectedObjectEnd | expectedWord | expectedValue
  | invalidEscape | loneSurrogate | unpairedSurrogate | controlCharacter
  | invalidNumber | numberOutOfRange
  | keyNotString | trailingComma | trailingCharacters | tooDeep
  /-- Something else stands where a shape was asked for. -/
  | wrongShape (found : Found) (wanted : Shape)
  /-- A record written as an array lacks the field at this index, and the field has no default. -/
  | tooShort (length : Nat) (record : String) (fields : Nat)
  | missingField (name : String)
  | duplicateField (name : String)
  | unknownVariant (name : String) (variants : List String)
  /-- A value has none of the forms that the named type may take. -/
  | noForm (type : String)
deriving DecidableEq, Repr

/-- The wording of a cause. -/
def Error.message : Error → String
  | valueEnds          => "EOF while parsing a value"
  | listEnds           => "EOF while parsing a list"
  | objectEnds         => "EOF while parsing an object"
  | stringEnds         => "EOF while parsing a string"
  | expectedColon      => "expected `:`"
  | expectedListEnd    => "expected `,` or `]`"
  | expectedObjectEnd  => "expected `,` or `\x7d`"
  | expectedWord       => "expected ident"
  | expectedValue      => "expected value"
  | invalidEscape      => "invalid escape"
  | loneSurrogate      => "lone leading surrogate in hex escape"
  | unpairedSurrogate  => "unexpected end of hex escape"
  | controlCharacter   =>
    "control character (\\u0000-\\u001F) found while parsing a string"
  | invalidNumber      => "invalid number"
  | numberOutOfRange   => "number out of range"
  | keyNotString       => "key must be a string"
  | trailingComma      => "trailing comma"
  | trailingCharacters => "trailing characters"
  | tooDeep            => "recursion limit exceeded"
  | wrongShape f w     => "invalid type: " ++ f.text ++ ", expected " ++ w.text
  | tooShort n r k     =>
    "invalid length " ++ toString n ++ ", expected struct " ++ r ++ " with " ++ toString k ++
      " elements"
  | missingField n     => "missing field `" ++ n ++ "`"
  | duplicateField n   => "duplicate field `" ++ n ++ "`"
  | unknownVariant n l =>
    "unknown variant `" ++ n ++ "`, expected " ++
      " or ".intercalate (l.map fun v => "`" ++ v ++ "`")
  | noForm t           => "data did not match any variant of untagged enum " ++ t

end UtilityCss.Json
