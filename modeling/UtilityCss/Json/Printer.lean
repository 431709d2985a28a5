import UtilityCss.Json.Value
import UtilityCss.Number.Shortest

/-!
# Printing JSON

Values are written on one line, or over several lines with an indentation of two spaces, where empty
arrays and objects stay on theirs. In strings only quotes, backslashes and controls are escaped.
-/

namespace UtilityCss.Json

/-- Numbers are positional from `1e-5` up to below `1e16`, a whole one with `.0`; what is not finite
is `null`. -/
def layout : Decimal.Layout where
  tie        := .even
  positional := some (-5, 15)
  pointZero  := true
  infinity   := "null"
  notANumber := "null"

/-- The text of a binary64 number. -/
def realText (x : Binary64) : String :=
  if x.isFinite then layout.text x else "null"

/-- One character of a string. -/
def escapeChar (c : Char) : List Char :=
  match c with
  | '"'    => ['\\', '"']
  | '\\'   => ['\\', '\\']
  | '\n'   => ['\\', 'n']
  | '\r'   => ['\\', 'r']
  | '\t'   => ['\\', 't']
  | '\x08' => ['\\', 'b']
  | '\x0c' => ['\\', 'f']
  | c      =>
    if c.toNat < 0x20 then
      ['\\', 'u', '0', '0', Nat.digitChar (c.toNat / 16), Nat.digitChar (c.toNat % 16)]
    else [c]

/-- A string in quotes. -/
def quoted (s : String) : String :=
  String.ofList ('"' :: s.toList.flatMap escapeChar ++ ['"'])

mutual

/-- A value on one line. -/
def compact : Json → String
  | null      => "null"
  | bool b    => if b then "true" else "false"
  | int n     => toString n
  | real x    => realText x
  | string s  => quoted s
  | array l   => "[" ++ ",".intercalate (compactItems l) ++ "]"
  | object l  => "\x7b" ++ ",".intercalate (compactMembers l) ++ "\x7d"

def compactItems : List Json → List String
  | []     => []
  | a :: l => compact a :: compactItems l

def compactMembers : List (String × Json) → List String
  | []          => []
  | (k, a) :: l => (quoted k ++ ":" ++ compact a) :: compactMembers l

end

/-- The start of a line at the given depth. -/
def newline (depth : Nat) : String :=
  String.ofList ('\n' :: List.replicate (2 * depth) ' ')

/-- Items between brackets, each on a line of its own. -/
def block (opener closer : String) (depth : Nat) (items : List String) : String :=
  if items.isEmpty then opener ++ closer
  else opener ++ newline (depth + 1) ++ ("," ++ newline (depth + 1)).intercalate items ++
    newline depth ++ closer

mutual

/-- A value over several lines, at the given depth of indentation. -/
def prettyAt (depth : Nat) : Json → String
  | array l  => block "[" "]" depth (prettyItems (depth + 1) l)
  | object l => block "\x7b" "\x7d" depth (prettyMembers (depth + 1) l)
  | a        => compact a

def prettyItems (depth : Nat) : List Json → List String
  | []     => []
  | a :: l => prettyAt depth a :: prettyItems depth l

def prettyMembers (depth : Nat) : List (String × Json) → List String
  | []          => []
  | (k, a) :: l => (quoted k ++ ": " ++ prettyAt depth a) :: prettyMembers depth l

end

/-- A value over several lines. -/
def pretty (a : Json) : String := prettyAt 0 a

end UtilityCss.Json
