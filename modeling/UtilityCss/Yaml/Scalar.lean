import UtilityCss.Text.Digit
import UtilityCss.Yaml.Cursor

/-!
# Scalars

How the text of a scalar is read in each of its styles: plain, between quotes of either kind, and as a
block of lines. Lines are folded into one but for blocks that are taken literally.
-/

namespace UtilityCss.Yaml

/-- A scalar that has been read: its text, the place behind it, and whether a line ended behind it. -/
structure ReadScalar where
  text      : List Char
  behind    : Cursor
  lineEnded : Bool

/-! ### Plain scalars -/

/-- Whether a character ends a word of a plain scalar in a flow collection. -/
def isFlowMark (c : Char) : Bool := [',', '[', ']', '\x7b', '\x7d'].contains c

/-- The word of a plain scalar at the head of a text. A colon that may be meant for a mark is refused
in flow collections. -/
def plainWord (inFlow : Bool) : List Char → Option (List Char)
  | []     => some []
  | c :: s =>
    if isBlank c || isBreak c then some []
    else if inFlow && c = ':' && s.head?.any (fun a => isFlowMark a || a = '?') then none
    else if (c = ':' && atBlank s) || (inFlow && isFlowMark c) then some []
    else (plainWord inFlow s).map (c :: ·)

/-- Reads a plain scalar that goes on behind a gap, in at most `n` words. -/
def plainFrom (inFlow : Bool) (indent : Nat) : Nat → List Char → Gap → Cursor → Option ReadScalar
  | 0,     s, g, c => some ⟨s, c, g.broken⟩
  | n + 1, s, g, c =>
    if c.atDivider || c.rest.head? = some '#' then some ⟨s, c, g.broken⟩
    else do
      let word ← plainWord inFlow c.rest
      let c := c.skip word.length
      let (s, g) := if word = [] then (s, g) else (s ++ g.text ++ word, Gap.empty)
      match c.rest with
      | [] => return ⟨s, c, g.broken⟩
      | a :: _ =>
        if isBlank a || isBreak a then
          let (g, c) ← g.read indent c.rest.length c
          if !inFlow && c.column < indent then return ⟨s, c, g.broken⟩
          else plainFrom inFlow indent n s g c
        else return ⟨s, c, g.broken⟩

/-- Reads a plain scalar. Its lines stand at the column `indent` or behind it. -/
def plain (inFlow : Bool) (indent : Nat) (c : Cursor) : Option ReadScalar :=
  plainFrom inFlow indent (c.rest.length + 1) [] .empty c

/-! ### Quoted scalars -/

/-- The character of an escape that is one character behind the backslash. -/
def shortEscape? (c : Char) : Option Char :=
  match c with
  | '0'  => some '\x00'
  | 'a'  => some '\x07'
  | 'b'  => some '\x08'
  | 't'  => some '\t'
  | '\t' => some '\t'
  | 'n'  => some '\n'
  | 'v'  => some '\x0b'
  | 'f'  => some '\x0c'
  | 'r'  => some '\r'
  | 'e'  => some '\x1b'
  | ' '  => some ' '
  | '"'  => some '"'
  | '/'  => some '/'
  | '\\' => some '\\'
  | 'N'  => some (Char.ofNat 0x85)
  | '_'  => some (Char.ofNat 0xA0)
  | 'L'  => some (Char.ofNat 0x2028)
  | 'P'  => some (Char.ofNat 0x2029)
  | _    => none

/-- The number of hexadecimal digits of an escape that has them. -/
def escapeDigits? (c : Char) : Option Nat :=
  match c with
  | 'x' => some 2
  | 'u' => some 4
  | 'U' => some 8
  | _   => none

/-- The number of hexadecimal digits that are all there. -/
def hexNumber? (digits : List Char) : Option Nat :=
  digits.foldlM (fun n c => (Text.hexValue? c).map (16 * n + ·)) 0

/-- The character of an escape behind the backslash, and the length of the escape. -/
def escape? (s : List Char) : Option (Char × Nat) :=
  match s with
  | []     => none
  | c :: s =>
    match shortEscape? c, escapeDigits? c with
    | some a, _      => some (a, 1)
    | none,   some k =>
      if s.length < k then none
      else (hexNumber? (s.take k)).bind fun n =>
        if n.isValidChar then some (Char.ofNat n, k + 1) else none
    | none,   none   => none

/-- A run of a quoted scalar without gaps. -/
inductive QuotedEnd where
  /-- At a gap, or at the closing quote. -/
  | stopped (behind : Cursor)
  /-- Behind a line end that is left out. -/
  | broken (behind : Cursor)

/-- Reads a run of at most `n` characters. -/
def quotedRun (quote : Char) : Nat → List Char → Cursor → Option (List Char × QuotedEnd)
  | 0,     s, c => some (s, .stopped c)
  | n + 1, s, c =>
    match c.rest with
    | []     => some (s, .stopped c)
    | a :: r =>
      if isBlank a || isBreak a then some (s, .stopped c)
      else if a = quote then
        if quote = '\'' ∧ r.head? = some '\'' then quotedRun quote n (s ++ ['\'']) (c.skip 2)
        else some (s, .stopped c)
      else if a = '\\' ∧ quote = '"' then
        if r ≠ [] ∧ atBreak r then some (s, .broken (c.skip 1).next)
        else
          match escape? r with
          | some (x, k) => quotedRun quote n (s ++ [x]) (c.skip (k + 1))
          | none        => none
      else quotedRun quote n (s ++ [a]) (c.skip 1)

/-- Reads the rest of a quoted scalar, in at most `n` runs. -/
def quotedFrom (quote : Char) : Nat → List Char → Cursor → Option ReadScalar
  | 0,     _, _ => none
  | n + 1, s, c =>
    if c.atDivider || c.rest = [] then none
    else do
      let (s, e) ← quotedRun quote c.rest.length s c
      match e with
      | .broken c =>
        let (g, c) ← Gap.escaped.read 0 c.rest.length c
        quotedFrom quote n (s ++ g.text) c
      | .stopped c =>
        if c.rest.head? = some quote then return ⟨s, c.skip 1, false⟩
        else
          let (g, c) ← Gap.empty.read 0 c.rest.length c
          quotedFrom quote n (s ++ g.text) c

/-- Reads a quoted scalar from its opening quote on. -/
def quoted (quote : Char) (c : Cursor) : Option ReadScalar :=
  quotedFrom quote (c.rest.length + 1) [] (c.skip 1)

/-! ### Blocks of lines -/

/-- What becomes of the line ends behind a block. -/
inductive Chomping where
  /-- None is kept. -/
  | strip
  /-- One is kept. -/
  | clip
  /-- All are kept. -/
  | keep
deriving DecidableEq

/-- The marks at the head of a block: how its end is chomped and how far it is indented. -/
def blockMarks (c : Cursor) : Option (Chomping × Option Nat × Cursor) :=
  let chomping? (c : Cursor) : Option Chomping :=
    match c.rest with
    | '+' :: _ => some .keep
    | '-' :: _ => some .strip
    | _        => none
  let digit? (c : Cursor) : Option Char :=
    match c.rest with
    | d :: _ => if d.isDigit then some d else none
    | []     => none
  let result (chomping : Chomping) (d : Option Char) (c : Cursor) :=
    if d = some '0' then none else some (chomping, d.map Text.digitValue, c)
  match chomping? c, digit? c with
  | some k, _ =>
    match digit? (c.skip 1) with
    | some d => result k d (c.skip 2)
    | none   => result k none (c.skip 1)
  | none, some d =>
    match chomping? (c.skip 1) with
    | some k => result k d (c.skip 2)
    | none   => result .clip d (c.skip 1)
  | none, none => result .clip none c

/-- Passes the blank lines of a block, at most `n` characters, and finds how far it is indented unless
that is known. The result has the line ends, the indentation and the place behind. -/
def blockBreaks (indent : Option Nat) (least : Nat) :
    Nat → List Char → Nat → Cursor → Option (List Char × Nat × Cursor)
  | 0,     s, widest, c => some (s, indent.getD (max widest least), c)
  | n + 1, s, widest, c =>
    let spaces := (c.rest.takeWhile (· = ' ')).length
    let c := c.skip (match indent with
      | some k => min spaces (k - c.column)
      | none   => spaces)
    let widest := max widest c.column
    match c.rest with
    | a :: _ =>
      if a = '\t' && indent.all (c.column < ·) then none
      else if isBreak a then blockBreaks indent least n (s ++ [a]) widest c.next
      else some (s, indent.getD (max widest least), c)
    | [] => some (s, indent.getD (max widest least), c)

/-- The lines of a block that have been read. -/
structure BlockLines where
  text    : List Char
  /-- The end of the last line. -/
  ended   : List Char
  /-- The line ends behind it. -/
  breaks  : List Char
  /-- The last line begins with a blank. -/
  indented : Bool

/-- Lines with one more, which is joined to the one before it if both begin with a character. -/
def BlockLines.add (folded : Bool) (l : BlockLines) (line : List Char) : BlockLines :=
  let indented := line.head?.any isBlank
  let joint :=
    if folded && l.ended.head? = some '\n' && !l.indented && !indented then
      if l.breaks = [] then [' '] else []
    else l.ended
  ⟨l.text ++ joint ++ l.breaks ++ line, [], [], indented⟩

/-- Reads at most `n` lines of a block that is indented to the column `indent`. -/
def blockFrom (folded : Bool) (indent : Nat) : Nat → BlockLines → Cursor → Option (BlockLines × Cursor)
  | 0,     l, c => some (l, c)
  | n + 1, l, c =>
    if c.column ≠ indent || c.rest = [] then some (l, c)
    else do
      let (line, c) := c.span (!isBreak ·)
      let ended := c.rest.take 1
      let c := c.next
      let (breaks, _, c) ← blockBreaks (some indent) 0 (c.rest.length + 1) [] 0 c
      blockFrom folded indent n { l.add folded line with ended, breaks } c

/-- Reads a block from its indicator on, inside a collection at the column `outer`, if there is one. -/
def block (folded : Bool) (outer : Option Nat) (c : Cursor) : Option ReadScalar := do
  let (chomping, increment, c) ← blockMarks (c.skip 1)
  let (_, c) := c.span isBlank
  let c := if c.rest.head? = some '#' then (c.span (!isBreak ·)).2 else c
  if !atBreak c.rest then none
  let c := c.next
  let indent := increment.map (outer.getD 0 + ·)
  let least := max 1 ((outer.map (· + 1)).getD 0)
  let (breaks, indent, c) ← blockBreaks indent least (c.rest.length + 1) [] 0 c
  let (l, c) ← blockFrom folded indent (c.rest.length + 1) ⟨[], [], breaks, false⟩ c
  let ending := match chomping with
    | .strip => []
    | .clip  => l.ended
    | .keep  => l.ended ++ l.breaks
  return ⟨l.text ++ ending, c, true⟩

end UtilityCss.Yaml
