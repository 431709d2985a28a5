import UtilityCss.File.Error
import UtilityCss.File.Path
import UtilityCss.OrderedMap

/-!
# File trees

A tree of directories and files without links. The place of a file is the row of names that leads to
it from the root; a path is followed piece by piece, and every piece before the last must lead through
a directory. A path that does not start at the root is followed from there all the same.

Operations that change the tree fail with a cause or change one place; those that take several steps
keep what the steps before a failure did.
-/

namespace UtilityCss

/-- What a file holds. -/
inductive Content where
  | text (s : String)
  /-- Bytes that are no text. -/
  | binary (bytes : List UInt8)
deriving DecidableEq

/-- The content that some bytes make up. -/
def Content.ofBytes (bytes : ByteArray) : Content :=
  match String.fromUTF8? bytes with
  | some s => text s
  | none   => binary bytes.toList

/-- What stands at a place. -/
inductive Node where
  | directory
  | file (content : Content)
deriving DecidableEq

/-- The names that lead from the root to a place. -/
abbrev Place := List String

/-- A tree of directories and files. The root is always there. -/
structure Tree where
  nodes : OrderedMap Place Node
deriving DecidableEq

/-- An operation on a tree, which may fail. -/
abbrev FileM := ExceptT FileError (StateM Tree)

namespace Tree

instance : EmptyCollection Tree := ⟨⟨∅⟩⟩

instance : Inhabited Tree := ⟨∅⟩

/-- What stands at a place. -/
def node? (t : Tree) (place : Place) : Option Node :=
  if place = [] then some .directory else t.nodes.get? place

/-- The tree with a node put at a place. -/
def put (t : Tree) (place : Place) (n : Node) : Tree := ⟨t.nodes.insert place n⟩

/-- The tree without what stands at a place. -/
def clear (t : Tree) (place : Place) : Tree := ⟨t.nodes.erase place⟩

theorem node?_put_of_ne {t : Tree} {place other : Place} {n : Node} (h : other ≠ place) :
    (t.put place n).node? other = t.node? other := by
  simp [node?, put, OrderedMap.get?_insert_of_ne h]

theorem node?_clear_of_ne {t : Tree} {place other : Place} (h : other ≠ place) :
    (t.clear place).node? other = t.node? other := by
  simp [node?, clear, OrderedMap.get?_erase_of_ne h]

/-! ### Following paths -/

/-- Where a path leads, and what stands there. -/
structure Spot where
  place : Place
  node  : Option Node
deriving DecidableEq

/-- The longest name, and the length that no path may reach, in bytes. -/
def maxName : Nat := 255

def pathLimit : Nat := 4096

/-- Follows one piece of a path. -/
def follow (t : Tree) (s : Spot) (piece : List Char) : Except FileError Spot :=
  match s.node with
  | none            => .error .notFound
  | some (.file _)  => .error .notDirectory
  | some .directory =>
    if !Path.leads piece then .ok s
    else if piece = ['.', '.'] then .ok ⟨s.place.dropLast, some .directory⟩
    else
      let name := String.ofList piece
      if maxName < name.utf8ByteSize then .error .nameTooLong
      else .ok ⟨s.place ++ [name], t.node? (s.place ++ [name])⟩

/-- Follows pieces in order. -/
def followAll (t : Tree) (s : Spot) : List (List Char) → Except FileError Spot
  | []          => .ok s
  | p :: pieces =>
    match t.follow s p with
    | .ok s'   => t.followAll s' pieces
    | .error e => .error e

/-- Why a text is no path. -/
def pathError? (p : Path) : Option FileError :=
  if p.text.isEmpty then some .notFound
  else if p.text.toList.contains '\x00' then some .nulInName
  else if pathLimit ≤ p.text.utf8ByteSize then some .nameTooLong
  else none

/-- Follows a path. The last name need not be there. -/
def spot (t : Tree) (p : Path) : Except FileError Spot :=
  match pathError? p with
  | some e => .error e
  | none   => t.followAll ⟨[], some .directory⟩ p.pieces

/-- What stands at a path, and its place. -/
def find (t : Tree) (p : Path) : Except FileError (Place × Node) :=
  match t.spot p with
  | .error e            => .error e
  | .ok ⟨place, some n⟩ => .ok (place, n)
  | .ok ⟨_, none⟩       => .error .notFound

def exists? (t : Tree) (p : Path) : Bool := (t.find p).toOption.isSome

def isFile (t : Tree) (p : Path) : Bool :=
  match t.find p with
  | .ok (_, .file _) => true
  | _                => false

def isDirectory (t : Tree) (p : Path) : Bool :=
  match t.find p with
  | .ok (_, .directory) => true
  | _                   => false

/-- The text of a file. -/
def readText (t : Tree) (p : Path) : Except FileError String :=
  match t.find p with
  | .error e                 => .error e
  | .ok (_, .directory)      => .error .isDirectory
  | .ok (_, .file (.text s)) => .ok s
  | .ok (_, .file _)         => .error .notText

/-! ### Listing -/

/-- The order of places: name by name, and names by code point. -/
def placeOrder : Place → Place → Ordering :=
  List.compareLex fun a b => List.compareLex (fun c d => compare c.toNat d.toNat) a.toList b.toList

/-- Everything in a tree, in the order of the names that lead there. -/
def sorted (t : Tree) : List (Place × Node) :=
  t.nodes.entries.mergeSort fun a b => (placeOrder a.1 b.1).isLE

/-- What stands below a place, with the names that lead there from it. A directory comes before what
stands in it. -/
def below (t : Tree) (place : Place) : List (Place × Node) :=
  t.sorted.filterMap fun e =>
    match e.1.drop place.length with
    | []   => none
    | rest => if e.1.take place.length = place then some (rest, e.2) else none

/-- The names in a directory, in order. -/
def names (t : Tree) (place : Place) : List String :=
  (t.below place).filterMap fun e =>
    match e.1 with
    | [name] => some name
    | _      => none

end Tree

namespace FileM

/-- Changes the tree at one place, or fails. -/
def change (f : Tree → Except FileError Tree) : FileM Unit := fun t =>
  match f t with
  | .ok t'   => (.ok (), t')
  | .error e => (.error e, t)

/-- Writes a file. A file that is there is replaced. -/
def write (p : Path) (content : Content) : FileM Unit := change fun t =>
  match t.spot p with
  | .error e                   => .error e
  | .ok ⟨_, some .directory⟩   => .error .isDirectory
  | .ok ⟨place, _⟩             => .ok (t.put place (.file content))

/-- Removes a file. -/
def remove (p : Path) : FileM Unit := change fun t =>
  match t.find p with
  | .error e               => .error e
  | .ok (_, .directory)    => .error .isDirectory
  | .ok (place, .file _)   => .ok (t.clear place)

/-- The pieces of a path without slashes at its end. -/
def namePieces (p : Path) : List (List Char) :=
  (p.pieces.reverse.dropWhile (· = [])).reverse

/-- Whether the last piece of a path is a name, which could be given to something new. -/
def endsInName (p : Path) : Bool :=
  match (namePieces p).getLast? with
  | some piece => piece ≠ ['.'] && piece ≠ ['.', '.']
  | none       => false

/-- Makes a directory. -/
def makeDirectory (p : Path) : FileM Unit := change fun t =>
  match Tree.pathError? p with
  | some e => .error e
  | none   =>
    match t.followAll ⟨[], some .directory⟩ (namePieces p) with
    | .error e          => .error e
    | .ok ⟨_, some _⟩   => .error .alreadyExists
    | .ok ⟨place, none⟩ => .ok (t.put place .directory)

/-- Makes a directory, going up at most `levels` levels to make those above it. -/
def makeDirectoriesUp (levels : Nat) (p : Path) : FileM Unit := do
  if p.text.isEmpty then return
  match (makeDirectory p).run (← get) with
  | (.ok (), t) => set t
  | (.error e, t) =>
    if e ≠ .notFound then
      unless t.isDirectory p do throw e
    else
      match levels, p.parent? with
      | n + 1, some above =>
        makeDirectoriesUp n above
        match (makeDirectory p).run (← get) with
        | (.ok (), t)   => set t
        | (.error e, t) => unless t.isDirectory p do throw e
      | _, _ => throw .noParent

/-- Makes a directory and those above it, as far as they are not there. -/
def makeDirectories (p : Path) : FileM Unit := makeDirectoriesUp p.pieces.length p

/-- Moves a file to a path, where it takes the place of a file that is there. -/
def rename (source target : Path) : FileM Unit := change fun t =>
  match t.find source with
  | .error e             => .error e
  | .ok (_, .directory)  => .error .isDirectory
  | .ok (old, .file c)   =>
    if !endsInName target then .error .busy
    else if target.hasEndSlash then .error .notDirectory
    else
      match t.spot target with
      | .error e                 => .error e
      | .ok ⟨_, some .directory⟩ => .error .isDirectory
      | .ok ⟨place, _⟩           => .ok ((t.clear old).put place (.file c))

/-- Writes a file beside the one that it is to be, and then moves it there. -/
def replace (p : Path) (text : String) : FileM Unit := do
  let draft := p.extend ".tmp"
  write draft (.text text)
  rename draft p

end FileM

end UtilityCss
