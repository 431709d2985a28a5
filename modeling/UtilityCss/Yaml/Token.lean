import UtilityCss.Yaml.Scalar
import UtilityCss.Yaml.Tag

/-!
# YAML tokens

A text is read into tokens that show its structure: where collections begin and end, where keys,
values and entries stand, and the scalars. Block collections are opened by a column further right than
the one around them and closed by one further left.

Whether something is a key shows only at the `:` behind it. So each place where a key may begin is
remembered, and at the `:` the token of the key is put there; a key stands on one line and is short.
At the column of a block mapping there must be a key.
-/

namespace UtilityCss.Yaml

/-- A token of a YAML text. -/
inductive Token where
  | directive (d : Directive)
  | documentStart | documentEnd
  | blockSequence | blockMapping | blockEnd
  | flowSequence | flowSequenceEnd | flowMapping | flowMappingEnd
  /-- A `-` before an entry of a block sequence. -/
  | dash
  /-- A `,` between entries of a flow collection. -/
  | comma
  | key | value
  | aliasOf (name : String)
  | anchor (name : String)
  | tag (t : WrittenTag)
  | scalar (text : String) (plain : Bool)
deriving DecidableEq

/-- A place where a key may begin. -/
structure KeyPlace where
  /-- The number of tokens before it. -/
  tokens   : Nat
  /-- There must be a key. -/
  required : Bool
  line     : Nat
  column   : Nat
  index    : Nat

/-- The greatest length of a key. -/
def maxKey : Nat := 1024

/-- A text of which some tokens have been read. -/
structure Scanner where
  cursor     : Cursor
  tokens     : Array Token
  /-- The columns of the open block collections, the innermost first. -/
  indents    : List Nat
  /-- A key may begin here. -/
  keyAllowed : Bool
  /-- The place of a possible key, outside and in each open flow collection, the innermost first. -/
  keys       : List (Option KeyPlace)

namespace Scanner

def ofText (s : List Char) : Scanner := ⟨.ofText s, #[], [], true, [none]⟩

def inFlow (s : Scanner) : Bool := 1 < s.keys.length

/-- The column of the innermost block collection. -/
def indent? (s : Scanner) : Option Nat := s.indents.head?

def push (s : Scanner) (t : Token) : Scanner := { s with tokens := s.tokens.push t }

def allow (s : Scanner) (b : Bool) : Scanner := { s with keyAllowed := b }

def move (s : Scanner) (c : Cursor) : Scanner := { s with cursor := c }

/-- Gives up the possible key. One that must be there cannot be given up. -/
def dropKey (s : Scanner) : Option Scanner :=
  match s.keys with
  | some k :: l => if k.required then none else some { s with keys := none :: l }
  | _           => some s

/-- Gives up the possible key if it is on a line before or too long. -/
def dropStaleKey (s : Scanner) : Option Scanner :=
  match s.keys.head?.join with
  | some k =>
    if k.line < s.cursor.line || k.index + maxKey < s.cursor.index then s.dropKey else some s
  | none => some s

/-- Remembers that a key may begin here. -/
def saveKey (s : Scanner) : Option Scanner :=
  if s.keyAllowed then do
    let required := !s.inFlow && s.indent? = some s.cursor.column
    let place := ⟨s.tokens.size, required, s.cursor.line, s.cursor.column, s.cursor.index⟩
    let s ← s.dropKey
    return { s with keys := some place :: s.keys.drop 1 }
  else some s

/-- Opens a block collection whose token stands behind `n` others, if the column is further right
than that of the collection around it. -/
def openBlock (s : Scanner) (column n : Nat) (t : Token) : Scanner :=
  if s.inFlow || s.indent?.any (column ≤ ·) then s
  else { s with indents := column :: s.indents, tokens := s.tokens.insertIdxIfInBounds n t }

/-- Closes the block collections that stand further right than a column; without a column, all. -/
def closeBlocks (s : Scanner) (column? : Option Nat) : Scanner :=
  if s.inFlow then s
  else
    let closed := s.indents.takeWhile fun i => column?.all (· < i)
    { s with
      indents := s.indents.drop closed.length
      tokens  := s.tokens ++ (closed.map fun _ => Token.blockEnd).toArray }

/-! ### Steps -/

/-- The place behind the order mark that may stand at the head of a line. -/
def passOrderMark (c : Cursor) : Cursor :=
  if c.column = 0 && c.rest.head?.any isOrderMark then c.skip 1 else c

/-- Passes at most `n` runs of blanks, comments and line ends. Where a key may begin in a block, tabs
are not passed. -/
def skipSpace : Nat → Scanner → Scanner
  | 0,     s => s
  | n + 1, s =>
    let (_, c) := (passOrderMark s.cursor).span fun a => a = ' ' || (a = '\t' && (s.inFlow || !s.keyAllowed))
    let c := if c.rest.head? = some '#' then (c.span (!isBreak ·)).2 else c
    match c.rest with
    | a :: _ =>
      if isBreak a then
        skipSpace n { s with cursor := c.next, keyAllowed := s.keyAllowed || !s.inFlow }
      else s.move c
    | [] => s.move c

/-- A token of `n` characters that begins no key. -/
def mark (s : Scanner) (t : Token) (n : Nat) (keyNext : Bool) : Option Scanner := do
  let s ← s.dropKey
  return ((s.push t).move (s.cursor.skip n)).allow keyNext

/-- A line that divides documents, or a directive. -/
def divide (s : Scanner) (t : Token) (behind : Cursor) : Option Scanner := do
  let s ← (s.closeBlocks none).dropKey
  return ((s.push t).move behind).allow false

/-- Opens a flow collection. -/
def openFlow (s : Scanner) (t : Token) : Option Scanner := do
  let s ← s.saveKey
  return (({ s with keys := none :: s.keys }.push t).move (s.cursor.skip 1)).allow true

/-- Closes a flow collection. -/
def closeFlow (s : Scanner) (t : Token) : Option Scanner := do
  let s ← s.dropKey
  let keys := if s.inFlow then s.keys.drop 1 else s.keys
  return (({ s with keys }.push t).move (s.cursor.skip 1)).allow false

/-- A `-` before an entry. -/
def dash (s : Scanner) : Option Scanner :=
  if s.inFlow then s.mark .dash 1 true
  else if s.keyAllowed then
    (s.openBlock s.cursor.column s.tokens.size .blockSequence).mark .dash 1 true
  else none

/-- A `?` before a key. -/
def question (s : Scanner) : Option Scanner :=
  if s.inFlow then s.mark .key 1 false
  else if s.keyAllowed then
    (s.openBlock s.cursor.column s.tokens.size .blockMapping).mark .key 1 true
  else none

/-- A `:` before a value. -/
def colon (s : Scanner) : Option Scanner :=
  match s.keys with
  | some k :: l =>
    let s := { s with
      keys   := none :: l
      tokens := s.tokens.insertIdxIfInBounds k.tokens .key }
    some (((s.openBlock k.column k.tokens .blockMapping).push .value).move
      (s.cursor.skip 1) |>.allow false)
  | _ =>
    let behind (s : Scanner) := ((s.push .value).move (s.cursor.skip 1)).allow (!s.inFlow)
    if s.inFlow then some (behind s)
    else if s.keyAllowed then
      some (behind (s.openBlock s.cursor.column s.tokens.size .blockMapping))
    else none

/-- An anchor or an alias, from its first character on. -/
def name (s : Scanner) (t : String → Token) : Option Scanner := do
  let s ← s.saveKey
  let (chars, c) := (s.cursor.skip 1).span isNameChar
  let ended := atBlank c.rest ||
    c.rest.head?.any fun a => ['?', ':', ',', ']', '\x7d', '%', '@', '\x60'].contains a
  if chars = [] || !ended then none
  else return ((s.push (t (String.ofList chars))).move c).allow false

/-- A tag. -/
def tag (s : Scanner) : Option Scanner := do
  let s ← s.saveKey
  let (t, c) ← writtenTag s.inFlow s.cursor
  return ((s.push (.tag t)).move c).allow false

/-- A scalar that may be a key. -/
def scalar (s : Scanner) (isPlain : Bool) (read : Cursor → Option ReadScalar) : Option Scanner := do
  let s ← s.saveKey
  let r ← read s.cursor
  return ((s.push (.scalar (String.ofList r.text) isPlain)).move r.behind).allow r.lineEnded

/-- A block of lines. -/
def block (s : Scanner) (folded : Bool) : Option Scanner := do
  let s ← s.dropKey
  let r ← Yaml.block folded s.indent? s.cursor
  return ((s.push (.scalar (String.ofList r.text) false)).move r.behind).allow true

/-- Characters with which no plain scalar begins. -/
def indicators : List Char :=
  ['-', '?', ':', ',', '[', ']', '\x7b', '\x7d', '#', '&', '*', '!', '|', '>', '\'', '"', '%', '@',
   '\x60']

/-- Whether a plain scalar begins with the character `c` before `rest`. -/
def beginsPlain (inFlow : Bool) (c : Char) (rest : List Char) : Bool :=
  (!isBlank c && !isBreak c && !indicators.contains c) ||
    (c = '-' && !rest.head?.any isBlank) ||
    (!inFlow && (c = '?' || c = ':') && !atBlank rest)

/-- Reads the token that begins with the character `c` before `rest`. -/
def token (s : Scanner) (c : Char) (rest : List Char) : Option Scanner :=
  if s.cursor.column = 0 && c = '%' then
    (directive s.cursor).bind fun (d, behind) => s.divide (.directive d) behind
  else if s.cursor.atDivider then
    s.divide (if c = '-' then .documentStart else .documentEnd) (s.cursor.skip 3)
  else
    match c with
    | '['    => s.openFlow .flowSequence
    | '\x7b' => s.openFlow .flowMapping
    | ']'    => s.closeFlow .flowSequenceEnd
    | '\x7d' => s.closeFlow .flowMappingEnd
    | ','    => s.mark .comma 1 true
    | '*'    => s.name .aliasOf
    | '&'    => s.name .anchor
    | '!'    => s.tag
    | '\''   => s.scalar false (quoted '\'')
    | '"'    => s.scalar false (quoted '"')
    | _      =>
      if c = '-' && atBlank rest then s.dash
      else if c = '?' && (s.inFlow || atBlank rest) then s.question
      else if c = ':' && (s.inFlow || atBlank rest) then s.colon
      else if (c = '|' || c = '>') && !s.inFlow then s.block (c = '>')
      else if beginsPlain s.inFlow c rest then
        s.scalar true (plain s.inFlow ((s.indent?.map (· + 1)).getD 0))
      else none

/-- Reads at most `n` tokens, up to the end of the text. -/
def scanWithin : Nat → Scanner → Option (List Token)
  | 0,     _ => none
  | n + 1, s => do
    let s ← (skipSpace (s.cursor.rest.length + 1) s).dropStaleKey
    match s.cursor.rest with
    | []        =>
      let s ← (s.closeBlocks none).dropKey
      return s.tokens.toList
    | c :: rest =>
      let s ← (s.closeBlocks (some s.cursor.column)).token c rest
      scanWithin n s

end Scanner

/-- The tokens of a text. -/
def Token.ofText? (s : String) : Option (List Token) :=
  if s.toList.all isAllowed then
    let chars := unifyBreaks s.toList
    Scanner.scanWithin (chars.length + 1) (.ofText chars)
  else none

end UtilityCss.Yaml
