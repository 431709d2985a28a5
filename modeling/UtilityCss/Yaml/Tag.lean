import UtilityCss.Text.Digit
import UtilityCss.Yaml.Cursor

/-!
# Tags

A tag is a URI that says of what kind a node is. It is written in full between `!<` and `>`, or as a
handle and the rest of the URI, where the handle stands for a beginning that a directive declares; the
lone `!` is a tag of its own. Bytes may be written as `%` and two digits, and a byte of zero ends the
part it stands in. Tags are bytes, since escapes may spell what is no text.
-/

namespace UtilityCss.Yaml

/-- A tag with its handle resolved. -/
structure Tag where
  bytes : List UInt8
deriving DecidableEq

/-- The bytes of a text. -/
def bytesOf (s : String) : List UInt8 := s.toUTF8.toList

/-- Bytes up to the first zero. -/
def untilZero (l : List UInt8) : List UInt8 := l.takeWhile (· ≠ 0)

namespace Tag

/-- What the tags of the core schema begin with. -/
def corePrefix : String := "tag:yaml.org,2002:"

/-- A tag of the core schema. -/
def core (kind : String) : Tag := ⟨bytesOf (corePrefix ++ kind)⟩

/-- The lone `!`. -/
def bare : Tag := ⟨bytesOf "!"⟩

/-- Whether a tag is one of the document's own, which begin with `!`. -/
def isLocal (t : Tag) : Bool := t.bytes.head? = some 0x21

/-- The name in a tag of the document's own: what follows the `!`, or that itself if nothing does. -/
def name? (t : Tag) : Option String :=
  match t.bytes with
  | 0x21 :: [] => some "!"
  | 0x21 :: r  => String.fromUTF8? ⟨r.toArray⟩
  | _          => none

end Tag

/-- What handles stand for. -/
abbrev Handles := List (String × List UInt8)

/-- The handles that need no directive. -/
def defaultHandles : Handles := [("!", bytesOf "!"), ("!!", bytesOf Tag.corePrefix)]

/-- A tag as it is written; without a handle it is written in full. -/
structure WrittenTag where
  handle : String
  suffix : List UInt8
deriving DecidableEq

/-- The tag that is written, if its handle is known. -/
def WrittenTag.resolve? (t : WrittenTag) (handles : Handles) : Option Tag :=
  if t.handle.isEmpty then some ⟨untilZero t.suffix⟩
  else (handles.find? (·.1 = t.handle)).map fun h => ⟨untilZero h.2 ++ untilZero t.suffix⟩

/-! ### Reading -/

/-- A character of a name. -/
def isNameChar (c : Char) : Bool := c.isAlphanum || c = '_' || c = '-'

/-- A character of a URI that stands for itself. -/
def isUriChar (inBrackets : Bool) (c : Char) : Bool :=
  isNameChar c || ";/?:@&=+$.!~*'()".toList.contains c || (inBrackets && [',', '[', ']'].contains c)

/-- The byte of an escape at the head of a text. -/
def escapedByte? : List Char → Option UInt8
  | '%' :: a :: b :: _ => do
    return UInt8.ofNat (16 * (← Text.hexValue? a) + (← Text.hexValue? b))
  | _ => none

/-- The number of bytes of a character, read off its first one. -/
def sequenceLength? (b : UInt8) : Option Nat :=
  if b < 0x80 then some 1
  else if b < 0xC0 then none
  else if b < 0xE0 then some 2
  else if b < 0xF0 then some 3
  else if b < 0xF8 then some 4
  else none

/-- Reads `n` escapes of bytes that go on a character. -/
def trailingBytes : Nat → Cursor → Option (List UInt8 × Cursor)
  | 0,     c => some ([], c)
  | n + 1, c => do
    let b ← escapedByte? c.rest
    if b < 0x80 || 0xC0 ≤ b then none
    else
      let (l, c) ← trailingBytes n (c.skip 3)
      return (b :: l, c)

/-- Reads the escapes of one character. -/
def escapedChar (c : Cursor) : Option (List UInt8 × Cursor) := do
  let b ← escapedByte? c.rest
  let n ← sequenceLength? b
  let (l, c) ← trailingBytes (n - 1) (c.skip 3)
  return (b :: l, c)

/-- Reads at most `n` characters of a URI. -/
def uriWithin (inBrackets : Bool) : Nat → Cursor → Option (List UInt8 × Cursor)
  | 0,     c => some ([], c)
  | n + 1, c =>
    match c.rest with
    | []     => some ([], c)
    | a :: _ =>
      if a = '%' then do
        let (l, c) ← escapedChar c
        let (r, c) ← uriWithin inBrackets n c
        return (l ++ r, c)
      else if isUriChar inBrackets a then do
        let (r, c) ← uriWithin inBrackets n (c.skip 1)
        return (bytesOf a.toString ++ r, c)
      else some ([], c)

/-- Reads a URI, which may be empty. Between brackets it may hold marks of flow collections. -/
def uri (inBrackets : Bool) (c : Cursor) : Option (List UInt8 × Cursor) :=
  uriWithin inBrackets c.rest.length c

/-- Reads a URI that is not empty. -/
def someUri (inBrackets : Bool) (c : Cursor) : Option (List UInt8 × Cursor) :=
  (uri inBrackets c).filter (·.1 ≠ [])

/-- Reads what may be a handle: a `!`, a name, which may be empty, and perhaps another `!`. -/
def handle (c : Cursor) : Option (String × Cursor) :=
  if c.rest.head? ≠ some '!' then none
  else
    let (name, c) := (c.skip 1).span isNameChar
    if c.rest.head? = some '!' then some (String.ofList ('!' :: name ++ ['!']), c.skip 1)
    else some (String.ofList ('!' :: name), c)

/-- Whether a text that may be a handle is one that ends in `!`, and not the lone `!`. -/
def isClosed (handle : String) : Bool := 1 < handle.length && handle.endsWith "!"

/-- Reads a tag that is written with a handle or without. -/
def shortTag (c : Cursor) : Option (WrittenTag × Cursor) := do
  let (h, c) ← handle c
  if isClosed h then
    let (u, c) ← someUri false c
    return (⟨h, u⟩, c)
  else
    let (u, c) ← uri false c
    let suffix := (bytesOf h).drop 1 ++ u
    return (if untilZero suffix = [] then ⟨"", Tag.bare.bytes⟩ else ⟨"!", suffix⟩, c)

/-- Reads a tag that is written in full. -/
def fullTag (c : Cursor) : Option (WrittenTag × Cursor) := do
  let (u, c) ← someUri true (c.skip 2)
  if c.rest.head? = some '>' then return (⟨"", u⟩, c.skip 1) else none

/-- Reads a tag. A blank or a line end follows, or a comma in a flow collection. -/
def writtenTag (inFlow : Bool) (c : Cursor) : Option (WrittenTag × Cursor) :=
  (match c.rest with
    | _ :: '<' :: _ => fullTag c
    | _             => shortTag c).filter fun r =>
      atBlank r.2.rest || (inFlow && r.2.rest.head? = some ',')

/-! ### Directives -/

/-- A directive before a document. -/
inductive Directive where
  | version (major minor : Nat)
  | handle (name : String) (stands : List UInt8)
deriving DecidableEq

/-- Reads a number of a version, which has at most nine digits. -/
def versionNumber (c : Cursor) : Option (Nat × Cursor) :=
  let (digits, c) := c.span Char.isDigit
  if digits = [] || 9 < digits.length then none
  else some (digits.foldl (fun n d => 10 * n + Text.digitValue d) 0, c)

/-- Reads a version. -/
def version (c : Cursor) : Option (Directive × Cursor) := do
  let (major, c) ← versionNumber (c.span isBlank).2
  if c.rest.head? ≠ some '.' then none
  else
    let (minor, c) ← versionNumber (c.skip 1)
    return (.version major minor, c)

/-- Reads a handle and what it stands for. -/
def handleDirective (c : Cursor) : Option (Directive × Cursor) := do
  let (h, c) ← handle (c.span isBlank).2
  if !(h = "!" || isClosed h) || !c.rest.head?.any isBlank then none
  else
    let (u, c) ← someUri true (c.span isBlank).2
    if atBlank c.rest then return (.handle h u, c) else none

/-- Reads a directive from its `%` on and passes the rest of the line, where a comment may stand. -/
def directive (c : Cursor) : Option (Directive × Cursor) := do
  let (name, c) := (c.skip 1).span isNameChar
  if !atBlank c.rest then none
  else
    let (d, c) ← match String.ofList name with
      | "YAML" => version c
      | "TAG"  => handleDirective c
      | _      => none
    let (_, c) := c.span isBlank
    let c := if c.rest.head? = some '#' then (c.span (!isBreak ·)).2 else c
    if atBreak c.rest then return (d, c.next) else none

/-- The handles that directives declare, with those that need none. There is at most one version, which
is 1.1 or 1.2, and no handle is declared twice. -/
def handlesOf? (l : List Directive) : Option Handles :=
  let versions := l.filterMap fun d => match d with
    | .version a b => some (a, b)
    | .handle ..   => none
  let handles := l.filterMap fun d => match d with
    | .version ..        => none
    | .handle name bytes => some (name, bytes)
  if 1 < versions.length || versions.any (fun v => v ≠ (1, 1) && v ≠ (1, 2)) then none
  else if (handles.map (·.1)).Nodup then some (handles ++ defaultHandles)
  else none

end UtilityCss.Yaml
