import UtilityCss.Text.Basic

/-!
# Paths

A path is a row of pieces with slashes between them, behind a start: the root, the directory `.`
where that is written out, or nothing. Pieces that are empty or `.` lead nowhere, so a path has many
spellings. A spelling is kept as it is given, since it is shown in messages; two paths are the same if
their starts and their parts, the pieces that lead somewhere, are.
-/

namespace UtilityCss

/-- A path as it is written. -/
structure Path where
  text : String
deriving DecidableEq, Repr

/-- Where a path starts. -/
inductive PathStart where
  | root
  /-- The directory `.`, written out. -/
  | here
  /-- Nothing is written before the first part. -/
  | unsaid
deriving DecidableEq, Repr

namespace PathStart

def chars : PathStart → List Char
  | root   => ['/']
  | here   => ['.']
  | unsaid => []

/-- The start of a path and the text behind it. -/
def split : List Char → PathStart × List Char
  | '/' :: s        => (root, s)
  | ['.']           => (here, [])
  | '.' :: '/' :: s => (here, '/' :: s)
  | s               => (unsaid, s)

end PathStart

namespace Path

/-- The pieces of a text between slashes. -/
def splitPieces (s : List Char) : List (List Char) := s.splitOn '/'

/-- The pieces of a text between slashes, none of which begins at a slash at the end. -/
def splitComponents (s : List Char) : List (List Char) :=
  let pieces := splitPieces s
  if pieces.getLast? = some [] then pieces.dropLast else pieces

/-- Whether a piece leads somewhere. -/
def leads (piece : List Char) : Bool := piece ≠ [] && piece ≠ ['.']

/-- Pieces without those at the end that lead nowhere. -/
def trimEnd (pieces : List (List Char)) : List (List Char) :=
  (pieces.reverse.dropWhile (!leads ·)).reverse

/-- The path with the given start and pieces. -/
def ofPieces (start : PathStart) (pieces : List (List Char)) : Path :=
  ⟨String.ofList (start.chars ++ ['/'].intercalate pieces)⟩

def start (p : Path) : PathStart := (PathStart.split p.text.toList).1

def pieces (p : Path) : List (List Char) := splitPieces (PathStart.split p.text.toList).2

/-- The pieces that lead somewhere. -/
def parts (p : Path) : List String := (p.pieces.filter leads).map String.ofList

def isAbsolute (p : Path) : Bool := p.start = .root

/-- Whether a path ends in a slash. -/
def hasEndSlash (p : Path) : Bool := p.text.toList.getLast? = some '/'

/-- What two spellings of one path have in common. -/
def spelled (p : Path) : PathStart × List String := (p.start, p.parts)

/-- The path of `q` seen from the directory `p`. -/
def join (p q : Path) : Path :=
  if q.isAbsolute then q
  else if p.text.isEmpty || p.hasEndSlash then ⟨p.text ++ q.text⟩
  else ⟨p.text ++ "/" ++ q.text⟩

/-- A path with a text behind its last character. -/
def extend (p : Path) (s : String) : Path := ⟨p.text ++ s⟩

/-- The path without its last part. -/
def parent? (p : Path) : Option Path :=
  match p.start, trimEnd p.pieces with
  | .here,  []     => some ⟨""⟩
  | _,      []     => none
  | start,  pieces => some (ofPieces start (trimEnd pieces.dropLast))

/-- The last part, unless it is `..`. -/
def name? (p : Path) : Option String :=
  match (trimEnd p.pieces).getLast? with
  | some piece => if piece = ['.', '.'] then none else some (String.ofList piece)
  | none       => none

/-- What follows the last dot of the name, if the dot does not begin it. -/
def extension? (p : Path) : Option String :=
  p.name?.bind fun name =>
    let s := name.toList.reverse
    match s.dropWhile (· ≠ '.') with
    | _ :: _ :: _ => some (String.ofList (s.takeWhile (· ≠ '.')).reverse)
    | _           => none

/-- What is left of pieces behind the given parts. -/
def dropParts : List (List Char) → List (List Char) → Option (List (List Char))
  | [],     pieces      => some pieces
  | _ :: _, []          => none
  | b :: l, p :: pieces =>
    if !leads p then dropParts (b :: l) pieces
    else if p = b then dropParts l pieces
    else none

/-- The path as seen from the directory `base`, if its parts begin with those of `base`. -/
def from? (p base : Path) : Option Path :=
  if base.spelled = (.unsaid, []) then some (ofPieces p.start (trimEnd p.pieces))
  else if p.start ≠ base.start then none
  else (dropParts (base.pieces.filter leads) p.pieces).map fun rest =>
    ofPieces .unsaid (trimEnd (rest.dropWhile (!leads ·)))

end Path

end UtilityCss
