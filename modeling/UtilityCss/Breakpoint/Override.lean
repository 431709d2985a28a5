import UtilityCss.Breakpoint.Table
import UtilityCss.Breakpoint.Value
import UtilityCss.Diagnostic

/-!
# Configured breakpoints

The breakpoints of a configuration are put over the default table one after the other. One whose
value denotes no width is left out and reported; the report says which width the name has instead.
-/

namespace UtilityCss

namespace BreakpointTable

/-- The report of a breakpoint whose value denotes no width. -/
def rejection (t : BreakpointTable) (name : String) (value : BreakpointValue) : Diagnostic :=
  let consequence := match t.get? name with
    | some width => "using default value " ++ toString width ++ "px instead"
    | none       => "breakpoint ignored"
  .warning ("Invalid breakpoint value " ++ value.display ++ ", " ++ consequence) name

/-- Puts one breakpoint over a table. -/
def override (t : BreakpointTable) (name : String) (value : BreakpointValue) :
    BreakpointTable × List Diagnostic :=
  match value.toPixels? with
  | some width => (t.insert name width, [])
  | none       => (t, [t.rejection name value])

/-- Puts breakpoints over a table in order. -/
def overrideAll (t : BreakpointTable) :
    List (String × BreakpointValue) → BreakpointTable × List Diagnostic
  | []              => (t, [])
  | (name, value) :: l =>
    let (t', ds) := t.override name value
    let (t'', ds') := t'.overrideAll l
    (t'', ds ++ ds')

/-- The table of a configuration, and what was left out. -/
def ofOverrides (overrides : OrderedMap String BreakpointValue) :
    BreakpointTable × List Diagnostic :=
  default.overrideAll overrides.entries

end BreakpointTable

end UtilityCss
