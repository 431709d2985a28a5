import UtilityCss.Compiler.Configuration
import UtilityCss.Proofs.OrderedMap
import Mathlib.Data.List.DropRight

/-!
# What a registry remembers

Whatever is done to a registry comes down to two events: a reset, and the registration of one utility
(`Compiler.utilities_perform`). Events that follow each other leave the map of the registrations behind the
last reset (`RegistryEvent.foldl_apply`), and a map of registrations has their names in the order of arrival
and at each name the last of them. So what a registry holds is told by its history
(`last_registration_wins`).
-/

namespace UtilityCss

/-! ### Rows of registrations -/

namespace Compiler

/-- The registrations of plugins, one after the other. -/
def registrations (plugins : List Plugin) : List (String × Utility) :=
  plugins.flatMap fun p => p.utilities.entries.map fun u => (u.1, ⟨u.2, p.variants⟩)

theorem utilities_register (r : Registry) (utilities : List (String × Styles))
    (variants : Variants) : (r.register utilities variants).utilities =
      r.utilities.insertAll (utilities.map fun u => (u.1, ⟨u.2, variants⟩)) := by
  induction utilities generalizing r with
  | nil => rfl
  | cons u utilities ih => exact ih _

theorem utilities_registerPlugins (r : Registry) (plugins : List Plugin) :
    (r.registerPlugins plugins).utilities = r.utilities.insertAll (registrations plugins) := by
  induction plugins generalizing r with
  | nil => rfl
  | cons p plugins ih =>
      have hcons : r.registerPlugins (p :: plugins) =
          (r.register p.utilities.entries p.variants).registerPlugins plugins := rfl
      rw [hcons, ih, utilities_register]
      exact (OrderedMap.insertAll_append ..).symm

end Compiler

/-! ### Operations and events -/

/-- What is done to the registry of a compiler. A plugin that is code can do nothing else either, so it is
a row of these. -/
inductive RegistryOperation where
  | register (utilities : List (String × Styles)) (variants : Variants)
  | reset
  | applyPlugins (plugins : List Plugin)

/-- What happens to a registry. -/
inductive RegistryEvent where
  | reset
  | registered (name : String) (utility : Utility)
deriving DecidableEq

/-- The event of a registration. -/
def RegistryEvent.ofEntry (e : String × Utility) : RegistryEvent := .registered e.1 e.2

/-- What happens when an operation is performed. -/
def RegistryOperation.events : RegistryOperation → List RegistryEvent
  | register utilities variants =>
    utilities.map fun u => .registered u.1 ⟨u.2, variants⟩
  | reset                       => [.reset]
  | applyPlugins plugins        => .reset :: (Compiler.registrations plugins).map .ofEntry

namespace RegistryEvent

variable {events : List RegistryEvent} {l : List (String × Utility)}

/-- The registration that an event is, if it is one. -/
def entry? : RegistryEvent → Option (String × Utility)
  | reset                   => none
  | registered name utility => some (name, utility)

/-- The registrations behind the last reset. -/
def sinceReset (events : List RegistryEvent) : List (String × Utility) :=
  (events.rtakeWhile (· ≠ reset)).filterMap entry?

/-- The utilities of a registry after an event. -/
def apply (m : OrderedMap String Utility) : RegistryEvent → OrderedMap String Utility
  | reset                   => ∅
  | registered name utility => m.insert name utility

theorem sinceReset_concat_reset : sinceReset (events ++ [reset]) = [] := by
  rw [sinceReset, List.rtakeWhile_concat_neg _ _ _ (by simp)]
  rfl

theorem sinceReset_concat_registered {name : String} {utility : Utility} :
    sinceReset (events ++ [registered name utility]) = sinceReset events ++ [(name, utility)] := by
  rw [sinceReset, List.rtakeWhile_concat_pos _ _ _ (by simp), List.filterMap_append]
  rfl

/-- A row of events leaves the map of the registrations behind the last reset. -/
theorem foldl_apply (events : List RegistryEvent) : events.foldl apply ∅ = .ofList (sinceReset events) := by
  induction events using List.reverseRecOn with
  | nil => rfl
  | append_singleton events e ih =>
      rw [List.foldl_concat, ih]
      cases e with
      | reset =>
          rw [sinceReset_concat_reset]
          rfl
      | registered name utility =>
          rw [sinceReset_concat_registered, OrderedMap.ofList_concat]
          rfl

theorem foldl_apply_ofEntry (m : OrderedMap String Utility) :
    (l.map ofEntry).foldl apply m = m.insertAll l := by
  rw [List.foldl_map]
  rfl

end RegistryEvent

/-! ### Histories -/

namespace Compiler
open RegistryEvent

variable {c : Compiler}

/-- Performs an operation. -/
def perform (c : Compiler) : RegistryOperation → Compiler
  | .register utilities variants => c.register utilities variants
  | .reset                       => c.reset
  | .applyPlugins plugins        => c.applyPlugins plugins

/-- Performs operations one after the other. -/
def performAll (c : Compiler) (history : List RegistryOperation) : Compiler := history.foldl perform c

theorem utilities_perform (op : RegistryOperation) :
    (c.perform op).registry.utilities = op.events.foldl apply c.registry.utilities := by
  cases op with
  | register utilities variants =>
      refine (utilities_register c.registry utilities variants).trans ?_
      rw [← foldl_apply_ofEntry, List.map_map]
      rfl
  | reset => rfl
  | applyPlugins plugins =>
      refine (utilities_registerPlugins ∅ plugins).trans ?_
      rw [← foldl_apply_ofEntry]
      rfl

theorem utilities_performAll (history : List RegistryOperation) :
    (c.performAll history).registry.utilities =
      (history.flatMap (·.events)).foldl apply c.registry.utilities := by
  induction history generalizing c with
  | nil => rfl
  | cons op history ih =>
      rw [List.flatMap_cons, List.foldl_append, ← utilities_perform]
      exact ih

/-- **The last registration wins, and the first one gives the place.**  After any history of an empty
registry, its names are those that were registered since the last reset, each once and in the order of
their first registration since then. A name stands for what its last registration since then says, styles
and variants, and for nothing if there is none. -/
theorem last_registration_wins (breakpoints : BreakpointTable) (history : List RegistryOperation) :
    let r := (performAll ⟨breakpoints, ∅⟩ history).registry
    let recent := sinceReset (history.flatMap (·.events))
    r.names = (recent.map Prod.fst).eraseDups ∧ r.names.Nodup ∧
    (∀ name utility, r.get? name = some utility ↔
      ∃ earlier later, recent = earlier ++ (name, utility) :: later ∧ name ∉ later.map Prod.fst) ∧
    (∀ name, r.get? name = none ↔ name ∉ recent.map Prod.fst) ∧
    (∀ name, r.contains name ↔ name ∈ r.names) ∧
    r.size = r.names.length ∧ (r.isEmpty ↔ r.names = []) := by
  intro r recent
  have hr : r.utilities = .ofList recent := (utilities_performAll history).trans (foldl_apply _)
  have hnames : r.names = (recent.map Prod.fst).eraseDups := by
    rw [Registry.names, hr, OrderedMap.keys_ofList]
  refine ⟨hnames, r.utilities.nodup_keys, fun name utility => ?_, fun name => ?_, fun name => ?_, ?_, ?_⟩
  · rw [Registry.get?, hr]
    exact OrderedMap.get?_ofList_eq_some_iff
  · rw [← Option.not_isSome_iff_eq_none, Registry.get?, OrderedMap.get?_isSome_iff, ← Registry.names, hnames,
      List.mem_eraseDups]
  · exact OrderedMap.contains_iff
  · exact (List.length_map _).symm
  · simp [Registry.isEmpty, Registry.names, OrderedMap.isEmpty, OrderedMap.keys]

end Compiler

end UtilityCss
