import UtilityCss.Breakpoint.Table
import UtilityCss.Diagnostic
import UtilityCss.Text.Basic

/-!
# Class tokens

A class token is a row of segments with `:` between them. The last one is the base, which names what
the token stands for; a `!` at its head asks for importance. The others modify it: the first may be a
breakpoint, with or without `max-`, and any may be a pseudo-class, of which the last counts. Segments
that are neither are passed over, so reading a token never fails.
-/

namespace UtilityCss

/-- The pseudo-classes that a segment may name. -/
inductive Pseudo where
  | hover | focus | active | visited | disabled | enabled | empty | checked
deriving DecidableEq, Repr

namespace Pseudo

def name : Pseudo → String
  | hover    => "hover"
  | focus    => "focus"
  | active   => "active"
  | visited  => "visited"
  | disabled => "disabled"
  | enabled  => "enabled"
  | empty    => "empty"
  | checked  => "checked"

def all : List Pseudo := [hover, focus, active, visited, disabled, enabled, empty, checked]

def ofName? (s : String) : Option Pseudo := all.find? (·.name = s)

theorem mem_all (p : Pseudo) : p ∈ all := by cases p <;> decide

end Pseudo

/-- A request for a range of viewport widths, bounded by the breakpoint `name`. -/
structure Media where
  name  : String
  /-- The breakpoint bounds the range from above. -/
  isMax : Bool
deriving DecidableEq, Repr

/-- A class token taken apart. -/
structure Token where
  media     : Option Media
  pseudo    : Option Pseudo
  /-- The last segment, without the `!`. -/
  name      : String
  important : Bool
deriving DecidableEq, Repr

namespace Token

/-- The last segment as it is written. -/
def base (t : Token) : String := if t.important then "!" ++ t.name else t.name

/-- Whether the token asks for a breakpoint or a pseudo-class. -/
def hasVariant (t : Token) : Bool := t.media.isSome || t.pseudo.isSome

/-- What follows `max-` at the head of a segment. -/
def maxName? (segment : String) : Option String :=
  (Text.dropPrefix? "max-".toList segment.toList).map String.ofList

/-- The media request of a first segment. A name that begins with `max-` itself is found second. -/
def media? (t : BreakpointTable) (segment : String) : Option Media :=
  match maxName? segment with
  | some n =>
    if t.contains n then some ⟨n, true⟩
    else if t.contains segment then some ⟨segment, false⟩
    else none
  | none => if t.contains segment then some ⟨segment, false⟩ else none

/-- Whether a segment would be a media request in first place, known or not. -/
def looksLikeMedia (t : BreakpointTable) (segment : String) : Bool :=
  t.contains segment || (maxName? segment).isSome

/-- The last pseudo-class among the segments. -/
def lastPseudo? (segments : List String) : Option Pseudo :=
  (segments.filterMap Pseudo.ofName?).getLast?

/-- The base segment without its `!`, and whether it had one. -/
def splitImportant (segment : String) : String × Bool :=
  match Text.dropPrefix? ['!'] segment.toList with
  | some r => (String.ofList r, true)
  | none   => (segment, false)

/-- Takes a token apart. Media requests outside the first place are reported and have no effect. -/
def parse (t : BreakpointTable) (token : String) : Token × List Diagnostic :=
  let segments := Text.split ':' token
  let modifiers := segments.dropLast
  let media := modifiers.head?.bind (media? t)
  let (name, important) := splitImportant (segments.getLast?.getD token)
  let misplaced := modifiers.tail.filter (looksLikeMedia t)
  ({ media, name, important
     pseudo := lastPseudo? (if media.isSome then modifiers.tail else modifiers) },
   misplaced.map fun s =>
     .info ("Media prefix \"" ++ s ++ "\" must appear only as the first segment") token)

end Token

end UtilityCss
