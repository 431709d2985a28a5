import UtilityCss.Json.Value
import UtilityCss.Number.Width
import UtilityCss.Yaml.Node

/-!
# What YAML nodes mean

A scalar between quotes is a text; a plain one is null, a boolean or a number if it is written like
one, and else a text. Whole numbers may be written in other bases behind `0x`, `0o` and `0b`; digits
behind a leading zero are a text. Tags may ask for one of these kinds. A node whose parts all have a
meaning has that of the JSON value that is built in the same way, if its keys are texts.
-/

namespace UtilityCss.Yaml
open Text

/-! ### Numbers -/

/-- The value of a digit in a base. -/
def digitIn? (base : Nat) (c : Char) : Option Nat :=
  (hexValue? c).bind fun n => if n < base then some n else none

/-- The number that digits in a base stand for. -/
def naturalIn? (base : Nat) (s : List Char) : Option Nat :=
  if s = [] then none else s.foldlM (fun n c => (digitIn? base c).map (base * n + ·)) 0

/-- Whether a text is digits behind a leading zero and perhaps a sign. -/
def isZeroLed (s : List Char) : Bool :=
  let s := match s with
    | '-' :: r | '+' :: r => r
    | r                   => r
  match s with
  | '0' :: d :: r => (d :: r).all Char.isDigit
  | _             => false

/-- The number that a text behind its sign stands for. -/
def unsigned? : List Char → Option Nat
  | '0' :: 'x' :: s => naturalIn? 16 s
  | '0' :: 'o' :: s => naturalIn? 8 s
  | '0' :: 'b' :: s => naturalIn? 2 s
  | s               => naturalIn? 10 s

/-- The whole number that a text stands for. -/
def integer? (s : List Char) : Option Int :=
  if isZeroLed s then none
  else
    match s with
    | '+' :: r => (unsigned? r).map Int.ofNat
    | '-' :: r => (unsigned? r).map fun n => -Int.ofNat n
    | r        => (unsigned? r).map Int.ofNat

/-- The exponent of ten behind a decimal: none is zero. -/
def exponent? : List Char → Option Int
  | [] => some 0
  | c :: s =>
    if c = 'e' || c = 'E' then
      match s with
      | '-' :: r => (naturalIn? 10 r).map fun n => -Int.ofNat n
      | '+' :: r => (naturalIn? 10 r).map Int.ofNat
      | r        => (naturalIn? 10 r).map Int.ofNat
    else none

/-- The number that a decimal behind its sign stands for. -/
def decimal? (negative : Bool) (s : List Char) : Option Binary64 :=
  let whole := s.takeWhile Char.isDigit
  let r := s.dropWhile Char.isDigit
  let (fraction, r) := match r with
    | '.' :: r => (r.takeWhile Char.isDigit, r.dropWhile Char.isDigit)
    | r        => ([], r)
  match naturalIn? 10 (whole ++ fraction), exponent? r with
  | some digits, some e => some (.ofDecimal negative digits (e - Int.ofNat fraction.length))
  | _,           _      => none

/-- The number that a text stands for, which may be infinite if that is said. -/
def real? (s : List Char) : Option Binary64 :=
  let (sign, body) := match s with
    | '+' :: r => (some false, r)
    | '-' :: r => (some true, r)
    | r        => (none, r)
  let negative := sign.getD false
  if [".inf", ".Inf", ".INF"].contains (String.ofList body) then some (.infinite negative)
  else if sign.isNone && [".nan", ".NaN", ".NAN"].contains (String.ofList body) then some .nan
  else (decimal? negative body).filter (·.isFinite)

/-! ### Scalars -/

def isNull (s : String) : Bool := ["null", "Null", "NULL", "~"].contains s

def boolean? (s : String) : Option Bool :=
  if ["true", "True", "TRUE"].contains s then some true
  else if ["false", "False", "FALSE"].contains s then some false
  else none

/-- Whether a whole number is kept as one. -/
def fits (n : Int) : Bool := fitsWidth 63 64 n

/-- Whether a whole number is too great to be kept and too small to be read as another number. -/
def isUnfit (n : Int) : Bool := !fits n && fitsWidth 127 128 n

/-- What a plain scalar means. -/
def plainMeaning (s : String) : Option Json :=
  if s.isEmpty || isNull s then some .null
  else
    match boolean? s with
    | some b => some (.bool b)
    | none   =>
      match (integer? s.toList).filter fun n => fits n || isUnfit n with
      | some n => if fits n then some (.int n) else none
      | none   =>
        if isZeroLed s.toList then some (.string s)
        else
          match real? s.toList with
          | some x => some (.real x)
          | none   => some (.string s)

/-- What a scalar with a tag means. The tags of the core schema ask for a kind, and any other tag leaves
the text; one of the document's own leaves the meaning of a plain scalar, if its name is no text. -/
def taggedMeaning (tag : Tag) (text : String) (plain : Bool) : Option Json :=
  if tag = .core "bool" then (boolean? text).map .bool
  else if tag = .core "int" then ((integer? text.toList).filter fits).map .int
  else if tag = .core "float" then (real? text.toList).map .real
  else if tag = .core "null" then (if isNull text then some .null else none)
  else if tag.bytes = [] then none
  else if tag.isLocal && plain then plainMeaning text
  else some (.string text)

/-- What a scalar means. A tag with a name means a choice, which is no value. -/
def scalarMeaning (text : String) (plain : Bool) : Option Tag → Option Json
  | some tag => if tag.name?.isSome then none else taggedMeaning tag text plain
  | none     => if plain then plainMeaning text else some (.string text)

/-! ### Reading nodes -/

/-- A reader of what nodes mean, which may follow some number of aliases. -/
abbrev Meaning (α : Type) := ReaderT Names (StateT Nat Option) α

namespace Document

/-- The number of aliases that are followed in a document of a given size. -/
def maxAliases (size : Nat) : Nat := 100 * size

/-- What the root of a document means. -/
def read? {α : Type} (d : Document) (read : Node → Meaning α) : Option α :=
  ((read d.root).run d.names).run' (maxAliases d.root.size)

end Document

namespace Node

/-- A node, or the one that an alias stands for. -/
def resolve : Node → Meaning Node
  | aliasOf number => do
    match ← get, (← read).node? number with
    | n + 1, some node => set n; return node
    | _,     _         => failure
  | node => return node

/-- The JSON value that a node means, where `inner` reads what is inside of brackets, if there may be
any. -/
def jsonWith (inner : Option (Node → Meaning Json)) (node : Node) : Meaning Json := do
  match ← resolve node, inner with
  | scalar text plain tag, _ =>
    match scalarMeaning text plain tag with
    | some a => return a
    | none   => failure
  | sequence items tag, some inner =>
    if (tag.bind Tag.name?).isSome then failure
    return .array (← items.mapM inner)
  | mapping entries tag, some inner =>
    if (tag.bind Tag.name?).isSome then failure
    return .object (← entries.mapM fun (k, v) => do
      match ← inner k with
      | .string s => return (s, ← inner v)
      | _         => failure)
  | _, _ => failure

/-- The JSON value that a node means, where brackets may be nested `depth` levels deep. -/
def json : Nat → Node → Meaning Json
  | 0     => jsonWith none
  | d + 1 => jsonWith (some (json d))

/-- The text of a scalar, whatever its style. -/
def text (node : Node) : Meaning String := do
  match ← resolve node with
  | scalar s .. => return s
  | _           => failure

/-- The items of a sequence. A plain scalar that is empty is a sequence without items. -/
def items (node : Node) : Meaning (List Node) := do
  match ← resolve node with
  | sequence l _     => return l
  | scalar "" true _ => return []
  | _                => failure

/-- The entries of a mapping. A plain scalar that is empty is a mapping without entries. -/
def entries (node : Node) : Meaning (List (Node × Node)) := do
  match ← resolve node with
  | mapping l _      => return l
  | scalar "" true _ => return []
  | _                => failure

end Node

end UtilityCss.Yaml
