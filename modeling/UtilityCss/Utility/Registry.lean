import UtilityCss.Utility.Basic

/-!
# The registry of utilities

The utilities of a configuration by name. A name that is registered again keeps its place and takes
the new styles and variants; nothing of the old ones is left. A plugin is a list of utilities that
share their variants, and applying plugins starts from an empty registry.
-/

namespace UtilityCss

/-- Utilities that share their variants, as a configuration lists them. -/
structure Plugin where
  utilities : OrderedMap String Styles
  variants  : Variants
deriving DecidableEq

/-- The utilities by name, in the order in which their names were first registered. -/
structure Registry where
  utilities : OrderedMap String Utility
deriving DecidableEq

namespace Registry

instance : EmptyCollection Registry := ⟨⟨∅⟩⟩

instance : Inhabited Registry := ⟨∅⟩

def get? (r : Registry) (name : String) : Option Utility := r.utilities.get? name

def contains (r : Registry) (name : String) : Bool := r.utilities.contains name

def names (r : Registry) : List String := r.utilities.keys

def size (r : Registry) : Nat := r.utilities.size

def isEmpty (r : Registry) : Bool := r.utilities.isEmpty

/-- Registers utilities in order, all with the same variants. -/
def register (r : Registry) (utilities : List (String × Styles)) (variants : Variants) : Registry :=
  utilities.foldl (fun r u => ⟨r.utilities.insert u.1 ⟨u.2, variants⟩⟩) r

/-- Registers the utilities of a plugin. -/
def registerPlugin (r : Registry) (p : Plugin) : Registry :=
  r.register p.utilities.entries p.variants

/-- Registers the utilities of plugins in order. -/
def registerPlugins (r : Registry) (plugins : List Plugin) : Registry :=
  plugins.foldl registerPlugin r

theorem mem_names_of_get? {r : Registry} {name : String} {u : Utility} (h : r.get? name = some u) :
    name ∈ r.names :=
  OrderedMap.get?_isSome_iff.1 (by simpa [get?] using congrArg Option.isSome h)

end Registry

end UtilityCss
