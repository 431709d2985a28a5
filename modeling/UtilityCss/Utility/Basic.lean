import UtilityCss.OrderedMap
import UtilityCss.Token

/-!
# Composite utilities

A utility is a class name of a configuration's own: a list of declarations, or a list of class tokens
whose declarations it takes over. Its variants say with which breakpoints and pseudo-classes it may be
combined; alone it may always stand.
-/

namespace UtilityCss

/-- What a utility stands for. -/
inductive Styles where
  /-- The declarations of class tokens, which are separated by blanks. -/
  | compose (tokens : String)
  /-- Properties with their values. -/
  | declarations (values : OrderedMap String String)
deriving DecidableEq

/-- The breakpoints and pseudo-classes that a utility may be combined with. -/
inductive Variants where
  | all
  /-- The names that are allowed: at least one, none of them `*`. -/
  | only (names : OrderedMap String Unit)
  | none
deriving DecidableEq

namespace Variants

/-- The variants of a list of names, in which `*` stands for all. -/
def ofNames (names : List String) : Variants :=
  let set := OrderedMap.ofList (names.map (·, ()))
  if set.contains "*" then .all
  else if set.isEmpty then .none
  else .only set

def allowsName (v : Variants) (name : String) : Bool :=
  match v with
  | .all        => true
  | .only names => names.contains name
  | .none       => false

/-- Whether a request passes: its breakpoint or its pseudo-class is allowed, or everything is. -/
def allows (v : Variants) (media pseudo : Option String) : Bool :=
  match v with
  | .all => true
  | v    => media.any v.allowsName || pseudo.any v.allowsName

/-- The names to write for a list of variants; `*` is written alone and is not a list. -/
def names (v : Variants) : List String :=
  match v with
  | .all        => ["*"]
  | .only names => names.keys
  | .none       => []

end Variants

/-- A composite utility. -/
structure Utility where
  styles   : Styles
  variants : Variants
deriving DecidableEq

/-- Whether a token may use the utility in the way it asks to. -/
def Utility.admits (u : Utility) (t : Token) : Bool :=
  !t.hasVariant || u.variants.allows (t.media.map (·.name)) (t.pseudo.map (·.name))

end UtilityCss
