import UtilityCss.Text.Basic

/-!
# Places in a YAML text

In YAML the column of a character matters, and so does the line, since a key stands on one line. A
cursor is the rest of a text together with its place. Line ends are made alike before a text is read.
Columns are counted in characters, but the length of a key is counted in bytes.
-/

namespace UtilityCss.Yaml

def isBreak (c : Char) : Bool := c = '\n' || c.toNat = 0x2028 || c.toNat = 0x2029

def isBlank (c : Char) : Bool := c = ' ' || c = '\t'

/-- Whether a text ends or goes on with a blank or a line end. -/
def atBlank : List Char → Bool
  | []     => true
  | c :: _ => isBlank c || isBreak c

/-- Whether a text ends or goes on with a line end. -/
def atBreak : List Char → Bool
  | []     => true
  | c :: _ => isBreak c

/-- Whether a character may stand in a text. -/
def isAllowed (c : Char) : Bool :=
  let n := c.toNat
  n = 0x09 || n = 0x0A || n = 0x0D || (0x20 ≤ n && n ≤ 0x7E) || n = 0x85 ||
    (0xA0 ≤ n && n ≤ 0xFFFD) || 0x10000 ≤ n

/-- Whether a character is the mark that may stand at the head of a line and counts for nothing. -/
def isOrderMark (c : Char) : Bool := c.toNat = 0xFEFF

/-- A text whose lines end in one way. -/
def unifyBreaks : List Char → List Char
  | '\r' :: '\n' :: s => '\n' :: unifyBreaks s
  | '\r' :: s         => '\n' :: unifyBreaks s
  | c :: s            => (if c.toNat = 0x85 then '\n' else c) :: unifyBreaks s
  | []                => []

/-- The rest of a text, and its place. -/
structure Cursor where
  rest   : List Char
  line   : Nat
  column : Nat
  /-- The number of bytes before. -/
  index  : Nat

namespace Cursor

def ofText (s : List Char) : Cursor := ⟨s, 0, 0, 0⟩

/-- The place behind the next character. -/
def next (c : Cursor) : Cursor :=
  match c.rest with
  | []     => c
  | a :: s =>
    if isBreak a then ⟨s, c.line + 1, 0, c.index + a.utf8Size⟩
    else ⟨s, c.line, c.column + 1, c.index + a.utf8Size⟩

/-- The place behind `n` characters, none of which ends a line. -/
def skip (c : Cursor) (n : Nat) : Cursor :=
  ⟨c.rest.drop n, c.line, c.column + n,
    c.index + (String.ofList (c.rest.take n)).utf8ByteSize⟩

/-- The characters of a kind that come next, and the place behind them; line ends are not of the
kind. -/
def span (c : Cursor) (p : Char → Bool) : List Char × Cursor :=
  let s := c.rest.takeWhile p
  (s, c.skip s.length)

/-- Whether a line that divides documents begins here. -/
def atDivider (c : Cursor) : Bool :=
  c.column = 0 &&
    match c.rest with
    | '-' :: '-' :: '-' :: s => atBlank s
    | '.' :: '.' :: '.' :: s => atBlank s
    | _                      => false

end Cursor

/-- Blanks and line ends inside a scalar. -/
structure Gap where
  /-- The blanks before the first line end. -/
  blanks : List Char
  /-- The gap reaches over the end of a line. -/
  broken : Bool
  /-- The first line end, unless it is written to be left out. -/
  first  : Option Char
  /-- The line ends behind it. -/
  more   : List Char

namespace Gap

def empty : Gap := ⟨[], false, none, []⟩

/-- A gap whose first line end is left out. -/
def escaped : Gap := ⟨[], true, none, []⟩

/-- What a gap stands for: one line end is a space, more of them are one less. -/
def text (g : Gap) : List Char :=
  if !g.broken then g.blanks
  else
    match g.first with
    | some '\n' => if g.more = [] then [' '] else g.more
    | some c    => c :: g.more
    | none      => g.more

/-- A gap with one more blank or line end. -/
def add (g : Gap) (c : Char) : Gap :=
  if isBreak c then
    if g.broken then { g with more := g.more ++ [c] }
    else { g with broken := true, first := some c, blanks := [] }
  else if g.broken then g
  else { g with blanks := g.blanks ++ [c] }

/-- Reads the rest of a gap, which has at most `n` characters. At the head of a line no tab may stand
before the column `indent`. -/
def read (indent : Nat) : Nat → Gap → Cursor → Option (Gap × Cursor)
  | 0,     g, c => some (g, c)
  | n + 1, g, c =>
    match c.rest with
    | a :: _ =>
      if isBreak a || isBlank a then
        if g.broken && a = '\t' && c.column < indent then none
        else read indent n (g.add a) c.next
      else some (g, c)
    | [] => some (g, c)

end Gap

end UtilityCss.Yaml
