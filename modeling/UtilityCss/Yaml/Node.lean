import UtilityCss.OrderedMap
import UtilityCss.Yaml.Token

/-!
# YAML nodes

The tokens of a text are read into one node, which is a scalar, a sequence or a mapping. What is left
out between tokens, such as the value of a key, is an empty plain scalar.

A node may be given a name by an anchor, and an alias stands for a named node, which may be one that
the alias is inside of. Names are numbered: a name gets the count of the names so far, anew each time
it is given. A name that is given again is counted once, so the name after it shares its number; an
alias means the number that its name has at that place, and stands for the last node of that number.
-/

namespace UtilityCss.Yaml

/-- A node of a YAML document. -/
inductive Node where
  | scalar (text : String) (plain : Bool) (tag : Option Tag)
  | sequence (items : List Node) (tag : Option Tag)
  | mapping (entries : List (Node × Node)) (tag : Option Tag)
  /-- What stands for the last node of a number. -/
  | aliasOf (number : Nat)

namespace Node

instance : Inhabited Node := ⟨scalar "" true none⟩

/-- What is left out. -/
def empty : Node := scalar "" true none

mutual

/-- The number of steps that a node takes to read. -/
def size : Node → Nat
  | scalar ..          => 1
  | aliasOf _          => 1
  | sequence items _   => sizeOfItems items + 2
  | mapping entries _  => sizeOfEntries entries + 2

def sizeOfItems : List Node → Nat
  | []     => 0
  | n :: l => size n + sizeOfItems l

def sizeOfEntries : List (Node × Node) → Nat
  | []          => 0
  | (k, v) :: l => size k + size v + sizeOfEntries l

end

end Node

/-- The names of nodes that have been read so far. Named nodes are counted in the order in which they
begin. -/
structure Names where
  /-- The number of each name. -/
  numbers : OrderedMap String Nat
  /-- How many nodes have begun. -/
  begun   : Nat
  /-- The number that each of them was given, the last one first. -/
  owners  : List (Nat × Nat)
  /-- Those that have ended. -/
  nodes   : List (Nat × Node)

namespace Names

def empty : Names := ⟨∅, 0, [], []⟩

/-- A node with a name begins. -/
def begin (a : Names) (name : String) : Names where
  numbers := a.numbers.insert name a.numbers.size
  begun   := a.begun + 1
  owners  := (a.numbers.size, a.begun) :: a.owners
  nodes   := a.nodes

/-- The node that began as the one with the count `n` ends. -/
def finish (a : Names) (n : Nat) (node : Node) : Names := { a with nodes := (n, node) :: a.nodes }

/-- The last node of a number. -/
def node? (a : Names) (number : Nat) : Option Node := do
  let (_, n) ← a.owners.find? (·.1 = number)
  let (_, node) ← a.nodes.find? (·.1 = n)
  return node

end Names

/-- A document: its node, and what aliases in it stand for. -/
structure Document where
  root  : Node
  names : Names

namespace Node

/-! ### Reading -/

/-- What follows in a text, what handles of tags stand for, and the names so far. -/
structure State where
  rest    : List Token
  handles : Handles
  names   : Names

/-- A reader of nodes. -/
abbrev Parser (α : Type) := StateT State Option α

/-- The tokens that follow. -/
def rest : Parser (List Token) := return (← get).rest

/-- Passes the next token. -/
def skip : Parser Unit := modify fun s => { s with rest := s.rest.drop 1 }

/-- An alias of a name. -/
def aliasNamed (name : String) : Parser Node := do
  match (← get).names.numbers.get? name with
  | some n => return aliasOf n
  | none   => failure

/-- The anchor and the tag before a node. -/
structure Properties where
  anchor : Option String
  tag    : Option Tag

/-- The tag that is written, whose handle must be known. -/
def resolved (t : WrittenTag) : Parser Tag := do
  match t.resolve? (← get).handles with
  | some t => return t
  | none   => failure

/-- Reads the anchor and the tag before a node, in either order. -/
def properties : Parser Properties := do
  match ← rest with
  | .anchor a :: .tag t :: _ | .tag t :: .anchor a :: _ =>
    skip
    skip
    return ⟨some a, some (← resolved t)⟩
  | .anchor a :: _ => skip; return ⟨some a, none⟩
  | .tag t :: _    => skip; return ⟨none, some (← resolved t)⟩
  | _              => return ⟨none, none⟩

/-- Reads a node of which the anchor, if there is one, has been read. -/
def named (anchor : Option String) (read : Parser Node) : Parser Node := do
  match anchor with
  | none   => read
  | some a =>
    let n := (← get).names.begun
    modify fun s => { s with names := s.names.begin a }
    let node ← read
    modify fun s => { s with names := s.names.finish n node }
    return node

/-- A scalar. The lone `!` says nothing of one that is written out. -/
def scalarWith (text : String) (plain : Bool) (tag : Option Tag) : Node :=
  scalar text plain (tag.filter (· ≠ Tag.bare))

/-- Whether an entry of a block is left out before a token. -/
def endsEntry : List Token → Bool
  | .dash :: _ | .blockEnd :: _ => true
  | _                           => false

/-- Whether a part of a block mapping is left out before a token. -/
def endsMember : List Token → Bool
  | .key :: _ | .value :: _ | .blockEnd :: _ => true
  | _                                        => false

/-- Whether an entry of a sequence at the column of its mapping is left out before a token. -/
def endsLooseEntry (l : List Token) : Bool := endsEntry l || endsMember l

/-- Whether a part of an entry of a flow sequence is left out before a token. -/
def endsFlowItem : List Token → Bool
  | .value :: _ | .comma :: _ | .flowSequenceEnd :: _ => true
  | _                                                 => false

/-- Whether a part of an entry of a flow mapping is left out before a token. -/
def endsFlowMember : List Token → Bool
  | .value :: _ | .comma :: _ | .flowMappingEnd :: _ => true
  | _                                                => false

/-- A node, or an empty one if it is left out. -/
def orEmpty (ends : List Token → Bool) (read : Parser Node) : Parser Node := do
  if ends (← rest) then return empty else read

/-- Passes the comma before an entry of a flow collection, unless the entry is the first. -/
def comma (first : Bool) : Parser Unit := do
  match first, ← rest with
  | true,  _           => return
  | false, .comma :: _ => skip
  | false, _           => failure

/-- Where a node stands. -/
inductive Setting where
  | block
  /-- In a block mapping, where a sequence need not be further right. -/
  | member
  | flow
deriving DecidableEq

mutual

/-- Reads a node. -/
def parse : Nat → Setting → Parser Node
  | 0,     _       => failure
  | n + 1, setting => do
    if let .aliasOf a :: _ ← rest then
      skip
      return ← aliasNamed a
    let p ← properties
    match ← rest with
    | .scalar text plain :: _ => skip; named p.anchor (return scalarWith text plain p.tag)
    | .flowSequence :: _      => skip; named p.anchor (return sequence (← flowItems n true) p.tag)
    | .flowMapping :: _       => skip; named p.anchor (return mapping (← flowEntries n true) p.tag)
    | t :: _ =>
      if t = .blockSequence ∧ setting ≠ .flow then
        skip
        named p.anchor (return sequence (← blockItems n) p.tag)
      else if t = .blockMapping ∧ setting ≠ .flow then
        skip
        named p.anchor (return mapping (← blockEntries n) p.tag)
      else if t = .dash ∧ setting = .member then
        named p.anchor (return sequence (← looseItems n) p.tag)
      else nothing p
    | [] => nothing p

/-- A node of which only the anchor or the tag is written. -/
def nothing (p : Properties) : Parser Node :=
  if p.anchor.isSome || p.tag.isSome then named p.anchor (return scalar "" true p.tag) else failure

/-- Reads the entries of a block sequence up to its end. -/
def blockItems : Nat → Parser (List Node)
  | 0     => failure
  | n + 1 => do
    match ← rest with
    | .blockEnd :: _ => skip; return []
    | .dash :: _     =>
      skip
      let item ← orEmpty endsEntry (parse n .block)
      return item :: (← blockItems n)
    | _ => failure

/-- Reads the entries of a sequence that stands at the column of its mapping. -/
def looseItems : Nat → Parser (List Node)
  | 0     => failure
  | n + 1 => do
    match ← rest with
    | .dash :: _ =>
      skip
      let item ← orEmpty endsLooseEntry (parse n .block)
      return item :: (← looseItems n)
    | _ => return []

/-- Reads a value behind its key, if one is written. -/
def value : Nat → (List Token → Bool) → Setting → Parser Node
  | 0,     _,    _       => failure
  | n + 1, ends, setting => do
    match ← rest with
    | .value :: _ => skip; orEmpty ends (parse n setting)
    | _           => return empty

/-- Reads the entries of a block mapping up to its end. -/
def blockEntries : Nat → Parser (List (Node × Node))
  | 0     => failure
  | n + 1 => do
    match ← rest with
    | .blockEnd :: _ => skip; return []
    | .key :: _      =>
      skip
      let key ← orEmpty endsMember (parse n .member)
      let value ← value n endsMember .member
      return (key, value) :: (← blockEntries n)
    | _ => failure

/-- Reads the key of an entry of a flow sequence that is a mapping. Where it is left out, the token
behind its mark is passed over. -/
def flowItemKey : Nat → Parser Node
  | 0     => failure
  | n + 1 => do
    if endsFlowItem (← rest) then
      skip
      return empty
    else parse n .flow

/-- Reads the entries of a flow sequence up to its end. An entry may be a mapping of one key. -/
def flowItems : Nat → Bool → Parser (List Node)
  | 0,     _     => failure
  | n + 1, first => do
    if let .flowSequenceEnd :: _ ← rest then
      skip
      return []
    comma first
    match ← rest with
    | .flowSequenceEnd :: _ => skip; return []
    | .key :: _             =>
      skip
      let key ← flowItemKey n
      let value ← value n (fun l => endsFlowItem l && l.head? ≠ some .value) .flow
      return mapping [(key, value)] none :: (← flowItems n false)
    | _ =>
      let item ← parse n .flow
      return item :: (← flowItems n false)

/-- Reads the entries of a flow mapping up to its end. -/
def flowEntries : Nat → Bool → Parser (List (Node × Node))
  | 0,     _     => failure
  | n + 1, first => do
    if let .flowMappingEnd :: _ ← rest then
      skip
      return []
    comma first
    match ← rest with
    | .flowMappingEnd :: _ => skip; return []
    | .key :: _            =>
      skip
      let key ← orEmpty endsFlowMember (parse n .flow)
      let value ← value n (fun l => endsFlowMember l && l.head? ≠ some .value) .flow
      return (key, value) :: (← flowEntries n false)
    | _ =>
      let key ← parse n .flow
      return (key, empty) :: (← flowEntries n false)

end

/-- Whether a document is empty before a token. -/
def endsDocument : List Token → Bool
  | [] | .documentStart :: _ | .documentEnd :: _ | .directive _ :: _ => true
  | _                                                                => false

end Node

/-! ### Documents -/

/-- The directives at the head of some tokens, and the tokens behind them. -/
def leadingDirectives : List Token → List Directive × List Token
  | .directive d :: l => let (ds, r) := leadingDirectives l; (d :: ds, r)
  | l                 => ([], l)

namespace Document

/-- What handles stand for in the first document of a text, and its tokens. Behind directives there must
be a dividing line; without one a document may not be empty. -/
def open? (l : List Token) : Option (Handles × List Token) :=
  match leadingDirectives l with
  | (ds, .documentStart :: r) => (handlesOf? ds).map (·, r)
  | ([], r)                   => if Node.endsDocument r then none else some (defaultHandles, r)
  | (_ :: _, _)               => none

/-- The only document of some tokens. Behind it there may be lines that end it. -/
def ofTokens? (l : List Token) : Option Document := do
  let (handles, r) ← open? l
  let read := Node.orEmpty Node.endsDocument (Node.parse (2 * r.length + 2) .block)
  let (root, s) ← read.run ⟨r, handles, .empty⟩
  if s.rest.all (· = .documentEnd) then return ⟨root, s.names⟩ else none

/-- The only document of a text. -/
def ofText? (s : String) : Option Document := (Token.ofText? s).bind ofTokens?

end Document

end UtilityCss.Yaml
