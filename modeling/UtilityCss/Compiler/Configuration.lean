import UtilityCss.Breakpoint.Override
import UtilityCss.Compiler

/-!
# Configuring a compiler

A compiler lives through several builds. Configuring it replaces its breakpoints and starts from an
empty registry, so nothing of an earlier configuration is left.
-/

namespace UtilityCss.Compiler

/-- The compiler without utilities. -/
def reset (c : Compiler) : Compiler := { c with registry := ∅ }

/-- Registers utilities that share their variants, beside those that are there. -/
def register (c : Compiler) (utilities : List (String × Styles)) (variants : Variants) : Compiler :=
  { c with registry := c.registry.register utilities variants }

/-- Registers the utilities of plugins in order, beside those that are there. -/
def registerPlugins (c : Compiler) (plugins : List Plugin) : Compiler :=
  { c with registry := c.registry.registerPlugins plugins }

/-- Registers the utilities of plugins in place of all others. -/
def applyPlugins (c : Compiler) (plugins : List Plugin) : Compiler :=
  c.reset.registerPlugins plugins

/-- Takes over the breakpoints and the plugins of a configuration. -/
def reconfigure (c : Compiler) (overrides : OrderedMap String BreakpointValue)
    (plugins : List Plugin) : Compiler × List Diagnostic :=
  let (breakpoints, found) := BreakpointTable.ofOverrides overrides
  ({ c with breakpoints }.applyPlugins plugins, found)

end UtilityCss.Compiler
