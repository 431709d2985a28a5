import UtilityCss.Config.Schema
import UtilityCss.Proofs.Breakpoint.Value
import UtilityCss.Proofs.Json.Record

/-!
# Configurations as functions of a value

What a JSON text is read as is told by the value that it holds: `Plugin.ofJson?`, `Injection.ofJson?`
and `Config.ofJson?` say how (`Config.ofJsonText_eq_ok_iff`). Breakpoints take no part in whether a
value is a configuration: with other values in their place it is the same configuration but for them
(`Config.map_bare_ofJson?`), and they are what stands there (`Config.breakpoints_of_ofJson?`).
-/

namespace UtilityCss
open Json

variable {d : Nat} {j : Json}

/-! ### Plugins and injections -/

namespace Plugin

/-- What a field of a plugin makes of a value. -/
def meaning? : String → Json → Option (Draft → Draft)
  | "utilities", j => (mapOf? Styles.ofJson? j).map fun m d => { d with utilities := some m }
  | "variants",  j => (Variants.ofJson? j).map fun v d => { d with variants := some v }
  | _,           _ => none

/-- The plugin that a value is. -/
def ofJson? (j : Json) : Option Plugin :=
  (recordOf? fields meaning? ⟨none, none⟩ j).map fun d => ⟨d.utilities.getD ∅, d.variants.getD .none⟩

theorem decodes_reader (d : Nat) : Decodes d (reader d) ofJson? := by
  have hfields : ∀ d, ∀ f ∈ fields, Decodes d (f.read d) (meaning? f.name) := fun d =>
    List.forall_mem_cons.2 ⟨(decodes_object decodes_form d).map _,
      List.forall_mem_singleton.2 ((decodes_form d).map _)⟩
  exact (decodes_record hfields d).map _

end Plugin

namespace Injection

/-- What a field of an injection makes of a value. -/
def meaning? : String → Json → Option (Draft → Draft)
  | "mode",    j => (variantOf? InjectMode.named j).map fun m d => { d with mode := some m }
  | "targets", j => (listOf? stringOf? j).map fun l d => { d with targets := some l }
  | _,         _ => none

/-- The injection that a value is. -/
def ofJson? (j : Json) : Option Injection := (recordOf? fields meaning? .empty j).map Draft.complete

theorem decodes_reader (d : Nat) : Decodes d (reader d) ofJson? := by
  have hfields : ∀ d, ∀ f ∈ fields, Decodes d (f.read d) (meaning? f.name) := fun d =>
    List.forall_mem_cons.2 ⟨(decodes_variant _ d).map _,
      List.forall_mem_singleton.2 ((decodes_array decodes_string d).map _)⟩
  exact (decodes_record hfields d).map _

end Injection

/-! ### Configurations -/

/-- The breakpoints that a value is, each of any kind. -/
def BreakpointValue.mapOfJson? : Json → Option (OrderedMap String BreakpointValue) :=
  mapOf? fun j => some (ofJson j)

theorem BreakpointValue.decodes_mapReader (d : Nat) : Decodes d (mapReader d) mapOfJson? :=
  decodes_object decodes_reader d

namespace Config

/-- What a field of a configuration makes of a value. -/
def meaning? : String → Json → Option (Draft → Draft)
  | "files",       j => (listOf? stringOf? j).map fun l d => { d with files := some l }
  | "output",      j => (stringOf? j).map fun s d => { d with output := some s }
  | "inject",      j => (Injection.ofJson? j).map fun i d => { d with inject := some i }
  | "breakpoints", j => (BreakpointValue.mapOfJson? j).map fun m d => { d with breakpoints := some m }
  | "plugins",     j => (listOf? Plugin.ofJson? j).map fun l d => { d with plugins := some l }
  | _,             _ => none

/-- The configuration that a value is. -/
def ofJson? (j : Json) : Option Config := (recordOf? fields meaning? .empty j).map Draft.complete

theorem decodes_reader (d : Nat) : Decodes d (reader d) ofJson? := by
  have hfields : ∀ d, ∀ f ∈ fields, Decodes d (f.read d) (meaning? f.name) := by
    intro d
    simp only [fields, List.forall_mem_cons]
    refine ⟨?_, ?_, ?_, ?_, ?_, List.forall_mem_nil _⟩
    · exact (decodes_array decodes_string d).map _
    · exact (decodes_string d).map _
    · exact (Injection.decodes_reader d).map _
    · exact (BreakpointValue.decodes_mapReader d).map _
    · exact (decodes_array Plugin.decodes_reader d).map _
  exact (decodes_record hfields d).map _

/-- A text that holds a value is read as the configuration that this value is. -/
theorem ofJsonText_eq_ok_iff {s : String} (hj : Reader.all Reader.value s = .ok j) {c : Config} :
    ofJsonText s = .ok c ↔ ofJson? j = some c :=
  all_eq_ok_iff decodes_reader hj

/-! ### Other breakpoints -/

/-- An object with other values under its keys. -/
def replaceValues (f : String → Json → Json) : Json → Json
  | .object l => .object (l.map fun m => (m.1, f m.1 m.2))
  | j         => j

/-- The value of a configuration with other values for its breakpoints. -/
def replaceBreakpoints (f : String → Json → Json) : Json → Json
  | .object l =>
    .object (l.map fun m => if m.1 = "breakpoints" then (m.1, replaceValues f m.2) else m)
  | .array l  => .array (l.modify 3 (replaceValues f))
  | j         => j

/-- A configuration without its breakpoints. -/
def bare (c : Config) : Config := { c with breakpoints := ∅ }

/-- A draft whose breakpoints, if it has them, are none. -/
def Draft.bare (d : Draft) : Draft := { d with breakpoints := d.breakpoints.map fun _ => ∅ }

theorem Draft.complete_bare (d : Draft) : d.bare.complete = d.complete.bare := by
  obtain ⟨_, _, _, breakpoints, _⟩ := d
  cases breakpoints <;> rfl

/-- What a field makes of a value if breakpoints do not matter. -/
def bareMeaning? (key : String) (j : Json) : Option (Draft → Draft) :=
  if key = "breakpoints" then
    (BreakpointValue.mapOfJson? j).map fun _ d => { d with breakpoints := some ∅ }
  else meaning? key j

theorem map_bare_meaning? (key : String) (j : Json) :
    (meaning? key j).map (fun set d => (set d).bare) =
      (bareMeaning? key j).map fun set d => set d.bare := by
  by_cases hkey : key = "breakpoints"
  · rw [bareMeaning?, if_pos hkey, hkey, meaning?, Option.map_map, Option.map_map]
    rfl
  · rw [bareMeaning?, if_neg hkey]
    unfold meaning?
    split
    case h_4 => exact absurd rfl hkey
    case h_6 => rfl
    all_goals
      rw [Option.map_map, Option.map_map]
      rfl

/-- A value is a configuration with no regard to its breakpoints. -/
theorem map_bare_recordOf? (j : Json) :
    (recordOf? fields meaning? .empty j).map Draft.bare = recordOf? fields bareMeaning? .empty j := by
  refine recordOf?_map ?_ map_bare_meaning? .empty j
  simp only [fields, List.forall_mem_cons]
  refine ⟨fun _ => rfl, fun _ => rfl, fun _ => rfl, fun d => ?_, fun _ => rfl, List.forall_mem_nil _⟩
  exact Option.isSome_map ..

theorem mapOfJson?_object (l : List (String × Json)) :
    BreakpointValue.mapOfJson? (.object l) =
      some (.ofList (l.map fun m => (m.1, BreakpointValue.ofJson m.2))) := by
  have h : l.mapM (fun m => some (m.1, BreakpointValue.ofJson m.2)) = some _ := List.mapM_pure
  rw [BreakpointValue.mapOfJson?, mapOf?]
  exact congrArg (Option.map OrderedMap.ofList) h

theorem bareMeaning?_replaceValues (f : String → Json → Json) (j : Json) :
    bareMeaning? "breakpoints" (replaceValues f j) = bareMeaning? "breakpoints" j := by
  rw [bareMeaning?, bareMeaning?, if_pos rfl, if_pos rfl]
  cases j with
  | object l =>
      rw [replaceValues, mapOfJson?_object, mapOfJson?_object]
      rfl
  | null | bool | int | real | string | array => rfl

theorem recordOf?_replaceBreakpoints (f : String → Json → Json) (j : Json) (draft : Draft) :
    recordOf? fields bareMeaning? draft (replaceBreakpoints f j) =
      recordOf? fields bareMeaning? draft j := by
  cases j with
  | array l =>
      have h : (l.modify 3 (replaceValues f)).foldlM (next? bareMeaning?) (fields, draft) = _ :=
        foldlM_next?_modify rfl (bareMeaning?_replaceValues f) l draft
      rw [replaceBreakpoints, recordOf?, recordOf?, h]
  | object l =>
      have hmember : ∀ draft m, member? fields bareMeaning? draft
          (if m.1 = "breakpoints" then (m.1, replaceValues f m.2) else m) =
            member? fields bareMeaning? draft m := by
        rintro draft ⟨key, j⟩
        by_cases hkey : key = "breakpoints"
        · subst hkey
          simp only [if_true, member?, bareMeaning?_replaceValues]
        · simp only [if_neg hkey]
      simp only [replaceBreakpoints, recordOf?, List.foldlM_map, hmember]
  | null | bool | int | real | string => rfl

/-- Breakpoints take no part in whether a value is a configuration. -/
theorem map_bare_ofJson? (f : String → Json → Json) (j : Json) :
    (ofJson? (replaceBreakpoints f j)).map bare = (ofJson? j).map bare := by
  have hcomplete : ∀ j, (ofJson? j).map bare =
      ((recordOf? fields meaning? .empty j).map Draft.bare).map Draft.complete := by
    intro j
    rw [ofJson?, Option.map_map, Option.map_map]
    exact congrArg (Option.map · _) (funext fun d => d.complete_bare.symm)
  rw [hcomplete, hcomplete, map_bare_recordOf?, map_bare_recordOf?, recordOf?_replaceBreakpoints]

/-- The breakpoints that stand in the value of a configuration. -/
def breakpointsIn : Json → OrderedMap String BreakpointValue
  | .object l =>
    ((l.find? (·.1 = "breakpoints")).bind fun m => BreakpointValue.mapOfJson? m.2).getD ∅
  | .array l  => (l[3]?.bind BreakpointValue.mapOfJson?).getD ∅
  | _         => ∅

theorem breakpoints_of_meaning? {key : String} {set : Draft → Draft} (hkey : key ≠ "breakpoints")
    (h : meaning? key j = some set) (d : Draft) : (set d).breakpoints = d.breakpoints := by
  unfold meaning? at h
  split at h
  case h_4 => exact absurd rfl hkey
  case h_6 => cases h
  all_goals
    obtain ⟨_, -, rfl⟩ := Option.map_eq_some_iff.1 h
    rfl

theorem exists_of_meaning?_breakpoints {set : Draft → Draft} (h : meaning? "breakpoints" j = some set) :
    ∃ m, BreakpointValue.mapOfJson? j = some m ∧ ∀ d, (set d).breakpoints = some m := by
  obtain ⟨m, hm, rfl⟩ := Option.map_eq_some_iff.1 h
  exact ⟨m, hm, fun _ => rfl⟩

/-- A configuration has the breakpoints that stand in its value. -/
theorem breakpoints_of_ofJson? {c : Config} (h : ofJson? j = some c) : c.breakpoints = breakpointsIn j := by
  obtain ⟨draft, hdraft, rfl⟩ := Option.map_eq_some_iff.1 h
  cases j with
  | array l =>
      rw [recordOf?] at hdraft
      obtain ⟨last, hlast, hdraft⟩ := Option.bind_eq_some_iff.1 hdraft
      split at hdraft
      · cases hdraft
      · cases hdraft
        have hget := get_of_foldlM_next? (i := 3) breakpoints_of_meaning? exists_of_meaning?_breakpoints
          (by decide) rfl hlast rfl
        exact congrArg (Option.getD · ∅) hget
  | object l =>
      rw [recordOf?] at hdraft
      obtain ⟨last, hlast, hdraft⟩ := Option.bind_eq_some_iff.1 hdraft
      split at hdraft
      · cases hdraft
      · cases hdraft
        have hget : draft.breakpoints = _ := get_of_foldlM_member? breakpoints_of_meaning?
          exists_of_meaning?_breakpoints rfl (fun _ => rfl) hlast
        exact congrArg (Option.getD · ∅) hget
  | null | bool | int | real | string => cases hdraft

end Config

end UtilityCss
