import UtilityCss.Breakpoint.Value
import UtilityCss.Json.Schema

/-!
# Breakpoints as they are written

The breakpoints of a configuration are an object from names to values of any kind.
-/

namespace UtilityCss.BreakpointValue

/-- Reads the value of a breakpoint. -/
def reader : Nat → Json.Reader BreakpointValue := .form "BreakpointValue" ofJson?

/-- Reads the breakpoints of a configuration. -/
def mapReader : Nat → Json.Reader (OrderedMap String BreakpointValue) := .object reader

end UtilityCss.BreakpointValue
