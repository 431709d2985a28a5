import UtilityCss.OrderedMap

/-!
# Breakpoints

A breakpoint is a name for a width of the viewport in pixels. The six names that every table has come
first, in ascending order of width; names that a configuration adds follow in order of arrival.
-/

namespace UtilityCss

/-- The named widths, in pixels. -/
structure BreakpointTable where
  widths : OrderedMap String Nat
deriving DecidableEq

namespace BreakpointTable

/-- The names that need no configuration. -/
def defaultWidths : List (String × Nat) :=
  [("xs", 480), ("sm", 640), ("md", 768), ("lg", 1024), ("xl", 1280), ("xxl", 1536)]

/-- The table of the default names alone. -/
def default : BreakpointTable := ⟨.ofList defaultWidths⟩

instance : Inhabited BreakpointTable := ⟨default⟩

def get? (t : BreakpointTable) (name : String) : Option Nat := t.widths.get? name

def contains (t : BreakpointTable) (name : String) : Bool := t.widths.contains name

def insert (t : BreakpointTable) (name : String) (width : Nat) : BreakpointTable :=
  ⟨t.widths.insert name width⟩

def toList (t : BreakpointTable) : List (String × Nat) := t.widths.entries

end BreakpointTable

end UtilityCss
