import UtilityCss.Json.Schema
import UtilityCss.Utility.Registry

/-!
# Utilities as they are written

The styles of a utility are a text of class tokens or an object of declarations; variants are one
name or a list of names. A plugin is a record of both, and each may be left out.
-/

namespace UtilityCss

/-- The texts of a list of values, if all are texts. -/
def Json.strings? (l : List Json) : Option (List String) :=
  l.mapM fun
    | .string s => some s
    | _         => none

/-- The members of an object with their texts, if all values are texts. -/
def Json.stringMembers? (l : List (String × Json)) : Option (List (String × String)) :=
  l.mapM fun
    | (k, .string s) => some (k, s)
    | _              => none

namespace Styles

def ofJson? : Json → Option Styles
  | .string s => some (.compose s)
  | .object l => (Json.stringMembers? l).map fun m => .declarations (.ofList m)
  | _         => none

def toJson : Styles → Json
  | .compose s      => .string s
  | .declarations m => .object (m.entries.map fun d => (d.1, .string d.2))

/-- Reads the styles of a utility. -/
def reader : Nat → Json.Reader Styles :=
  .form "UtilityStyles" ofJson?

end Styles

namespace Variants

def ofJson? : Json → Option Variants
  | .string s => some (ofNames [s])
  | .array l  => (Json.strings? l).map ofNames
  | _         => .none

def toJson : Variants → Json
  | .all        => .string "*"
  | .only names => .array (names.keys.map .string)
  | .none       => .array []

/-- Reads variants. -/
def reader : Nat → Json.Reader Variants :=
  .form "RawVariants" ofJson?

end Variants

namespace Plugin

/-- A plugin of which some fields have been read. -/
structure Draft where
  utilities : Option (OrderedMap String Styles)
  variants  : Option Variants

def fields : List (Json.Field Draft) :=
  [⟨"utilities", false, (·.utilities.isSome),
      fun depth => (Json.Reader.object Styles.reader depth).map fun m d =>
        { d with utilities := some m }⟩,
   ⟨"variants", false, (·.variants.isSome),
      fun depth => (Variants.reader depth).map fun v d => { d with variants := some v }⟩]

/-- Reads a plugin. -/
def reader (depth : Nat) : Json.Reader Plugin :=
  (Json.Reader.record "UtilityPlugin" fields ⟨none, none⟩ depth).map fun d =>
    ⟨d.utilities.getD ∅, d.variants.getD .none⟩

def toJson (p : Plugin) : Json :=
  .object [("utilities", .object (p.utilities.entries.map fun u => (u.1, u.2.toJson))),
    ("variants", p.variants.toJson)]

end Plugin

end UtilityCss
