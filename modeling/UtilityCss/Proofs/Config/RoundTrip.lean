import UtilityCss.Config.Load
import UtilityCss.Proofs.Breakpoint.Value
import UtilityCss.Proofs.Json.Printed
import UtilityCss.Proofs.Json.Yield
import UtilityCss.Proofs.Utility.Variants

/-!
# Configurations read back

The forms in which utilities, variants and breakpoints are written are read as what they are written
for, once they have been read (`Styles.ofJson?_toJson`, `Variants.ofJson?_toJson`,
`BreakpointValue.ofJson_toJson`). A configuration that was loaded holds only such variants and
breakpoints (`Config.Readable`), and its brackets are not too deep, so its readers restore it from its
text (`Config.restores`), and a file with this text loads as the same configuration
(`Config.ofFile_toJsonText`). A binary64 number among its breakpoints is all that could be in the way.
-/

namespace UtilityCss
open Json

variable {d : Nat}

/-! ### Utilities -/

theorem Json.stringMembers?_map (l : List (String × String)) :
    stringMembers? (l.map fun d => (d.1, .string d.2)) = some l := by
  induction l with
  | nil => rfl
  | cons s l ih =>
      rw [stringMembers?] at ih ⊢
      rw [List.map_cons, List.mapM_cons, ih]
      rfl

theorem Styles.ofJson?_toJson (s : Styles) : ofJson? s.toJson = some s := by
  cases s with
  | compose tokens => rfl
  | declarations m =>
      rw [toJson, ofJson?, stringMembers?_map, Option.map_some, OrderedMap.ofList_entries]

/-- The names of a list of variants are a list of the same variants. -/
theorem Variants.ofNames_keys {m : OrderedMap String Unit} (hall : m.contains "*" = false)
    (hsome : m.isEmpty = false) : ofNames m.keys = .only m := by
  have hset : OrderedMap.ofList (m.keys.map (·, ())) = m := by
    have hentries : m.keys.map (·, ()) = m.entries := by
      rw [OrderedMap.keys, List.map_map]
      exact List.map_id _
    rw [hentries, OrderedMap.ofList_entries]
  simp only [ofNames, hset, hall, hsome, Bool.false_eq_true, if_false]

theorem Variants.ofJson?_toJson (names : List String) :
    ofJson? (ofNames names).toJson = some (ofNames names) := by
  simp only [ofNames]
  split
  · rfl
  · rename_i hall
    split
    · rfl
    · rename_i hsome
      rw [toJson, ofJson?, strings?_map, Option.map_some,
        ofNames_keys (Bool.eq_false_iff.2 hall) (Bool.eq_false_iff.2 hsome)]

namespace BreakpointValue

/-- The value holds no binary64 number. -/
inductive IsWhole : BreakpointValue → Prop where
  | pixels (n : Int) : IsWhole (.pixels n)
  | text (s : String) : IsWhole (.text s)
  | other {a : Json} (h : a.IsWhole) : IsWhole (.other a)

theorem IsWhole.toJson {v : BreakpointValue} (h : v.IsWhole) : v.toJson.IsWhole := by
  cases h with
  | pixels n => exact .int n
  | text s => exact .string s
  | other h => exact h

theorem ofJson_int_of_isWhole {n : Int} (h : (ofJson (.int n)).IsWhole) : ofJson (.int n) = pixels n := by
  rw [ofJson] at h ⊢
  split at h
  · rename_i hfits
    exact if_pos hfits
  · cases h

/-- A value that is written and read again stays the same. -/
theorem ofJson_toJson {a : Json} (h : (ofJson a).IsWhole) : ofJson (ofJson a).toJson = ofJson a := by
  cases a with
  | null => rfl
  | bool b => rfl
  | int n => rw [ofJson_int_of_isWhole h, toJson, ofJson_int_of_isWhole h]
  | real x => cases h
  | string s => rfl
  | array l =>
      have hsorted := sorted_sorted (.array l)
      show ofJson (Json.array l).sorted = other (Json.array l).sorted
      rw [sorted_array] at hsorted ⊢
      exact congrArg other hsorted
  | object l =>
      have hsorted := sorted_sorted (.object l)
      show ofJson (Json.object l).sorted = other (Json.object l).sorted
      rw [sorted_object] at hsorted ⊢
      exact congrArg other hsorted

theorem fits_toJson {a : Json} (h : (ofJson a).IsWhole) (hfits : a.Fits d) :
    (ofJson a).toJson.Fits d := by
  cases a with
  | int n =>
      rw [ofJson_int_of_isWhole h]
      exact hfits
  | real x => cases h
  | string s => exact hfits
  | null | bool b | array l | object l => exact hfits.sorted

end BreakpointValue

/-! ### Readers of what is written -/

theorem restores_strings (l : List String) (d : Nat) :
    Restores (Reader.array (fun _ => .string) (d + 1)) (.array (l.map .string)) l :=
  restores_array (d := d) fun s _ => restores_string s

theorem fits_strings (l : List String) (d : Nat) : Json.Fits (d + 1) (.array (l.map .string)) :=
  .array (List.forall_mem_map.2 fun s _ => .string d s)

theorem isWhole_strings (l : List String) : Json.IsWhole (.array (l.map .string)) :=
  .array (List.forall_mem_map.2 fun s _ => .string s)

theorem Styles.restores (s : Styles) (d : Nat) : Restores (reader (d + 1)) s.toJson s := by
  refine restores_form (restores_value ?_ ?_) s.ofJson?_toJson
  · cases s with
    | compose tokens => exact .string _ tokens
    | declarations m => exact .object (List.forall_mem_map.2 fun e _ => .string d e.2)
  · cases s with
    | compose tokens => exact .string tokens
    | declarations m => exact .object (List.forall_mem_map.2 fun e _ => .string e.2)

theorem Variants.restores (names : List String) (d : Nat) :
    Restores (reader (d + 1)) (ofNames names).toJson (ofNames names) := by
  refine restores_form (restores_value ?_ ?_) (ofJson?_toJson names)
  · cases ofNames names with
    | all => exact .string _ _
    | only m => exact fits_strings m.keys d
    | none => exact fits_strings [] d
  · cases ofNames names with
    | all => exact .string _
    | only m => exact isWhole_strings m.keys
    | none => exact isWhole_strings []

theorem BreakpointValue.restores {a : Json} (hfits : a.Fits d) (hwhole : (ofJson a).IsWhole) :
    Restores (reader d) (ofJson a).toJson (ofJson a) := by
  refine restores_form (restores_value (fits_toJson hwhole hfits) hwhole.toJson) ?_
  rw [ofJson?_eq, ofJson_toJson hwhole]

theorem Injection.restores (i : Injection) (d : Nat) : Restores (reader (d + 2)) i.toJson i := by
  have hmode : InjectMode.named.find? (·.1 = i.mode.name) = some (i.mode.name, i.mode) := by
    cases i.mode <;> decide
  have hmembers : Collects (Json.Field.member fields (d + 1)) .empty
      [("mode", .string i.mode.name), ("targets", .array (i.targets.map .string))]
      ⟨some i.mode, some i.targets⟩ :=
    .field rfl rfl ((restores_variant hmode).map _)
      (.field rfl rfl ((restores_strings i.targets d).map _) (.nil _))
  exact (restores_record hmembers rfl).map Draft.complete

theorem Plugin.restores {p : Plugin} {names : List String} (h : p.variants = .ofNames names) (d : Nat) :
    Restores (reader (d + 3)) p.toJson p := by
  have hutilities : Restores (Reader.object Styles.reader (d + 2))
      (.object (p.utilities.entries.map fun u => (u.1, u.2.toJson))) p.utilities :=
    restores_object fun u _ => u.2.restores d
  have hvariants : Restores (Variants.reader (d + 2)) p.variants.toJson p.variants := by
    rw [h]
    exact Variants.restores names (d + 1)
  have hmembers : Collects (Json.Field.member fields (d + 2)) ⟨none, none⟩
      [("utilities", .object (p.utilities.entries.map fun u => (u.1, u.2.toJson))),
        ("variants", p.variants.toJson)] ⟨some p.utilities, some p.variants⟩ :=
    .field rfl rfl (hutilities.map _) (.field rfl rfl (hvariants.map _) (.nil _))
  exact (restores_record hmembers rfl).map fun d : Draft =>
    (⟨d.utilities.getD ∅, d.variants.getD .none⟩ : Plugin)

namespace Config

/-- What a reader of the given depth can make of breakpoints and variants. -/
structure Readable (d : Nat) (c : Config) : Prop where
  breakpoints : ∀ b ∈ c.breakpoints.entries, ∃ a, a.Fits d ∧ b.2 = .ofJson a
  variants    : ∀ p ∈ c.plugins, ∃ names, p.variants = .ofNames names

theorem restores {c : Config} (h : c.Readable (d + 3))
    (hwhole : ∀ b ∈ c.breakpoints.entries, b.2.IsWhole) : Restores (reader (d + 5)) c.toJson c := by
  have hbreakpoints : Restores (BreakpointValue.mapReader (d + 4))
      (.object (c.breakpoints.entries.map fun b => (b.1, b.2.toJson))) c.breakpoints := by
    refine restores_object fun b hb => ?_
    obtain ⟨a, hfits, ha⟩ := h.breakpoints b hb
    have hb := hwhole b hb
    rw [ha] at hb ⊢
    exact BreakpointValue.restores hfits hb
  have hplugins : Restores (Reader.array Plugin.reader (d + 4)) (.array (c.plugins.map Plugin.toJson))
      c.plugins := by
    refine restores_array fun p hp => ?_
    obtain ⟨names, hnames⟩ := h.variants p hp
    exact Plugin.restores hnames d
  have hmembers : Collects (Json.Field.member fields (d + 4)) .empty
      [("files", .array (c.files.map .string)), ("output", .string c.output),
        ("inject", c.inject.toJson),
        ("breakpoints", .object (c.breakpoints.entries.map fun b => (b.1, b.2.toJson))),
        ("plugins", .array (c.plugins.map Plugin.toJson))]
      ⟨some c.files, some c.output, some c.inject, some c.breakpoints, some c.plugins⟩ :=
    .field rfl rfl ((restores_strings c.files _).map _) <|
      .field rfl rfl ((restores_string c.output).map _) <|
      .field rfl rfl ((c.inject.restores _).map _) <|
      .field rfl rfl (hbreakpoints.map _) <|
      .field rfl rfl (hplugins.map _) <| .nil _
  exact (restores_record hmembers rfl).map Draft.complete

end Config

/-! ### What is read -/

theorem Variants.yields_reader (d : Nat) : Yields (fun v => ∃ names, v = ofNames names) (reader d) := by
  refine Yields.form (yields_true _) fun j v _ h => ?_
  cases j with
  | string s =>
      cases h
      exact ⟨[s], rfl⟩
  | array l =>
      obtain ⟨names, -, rfl⟩ := Option.map_eq_some_iff.1 h
      exact ⟨names, rfl⟩
  | null | bool | int | real | object => cases h

theorem Plugin.yields_reader (d : Nat) :
    Yields (fun p => ∃ names, p.variants = .ofNames names) (reader (d + 1)) := by
  -- the variants of a draft without variants are those of no name
  refine Yields.map (yields_record
    (I := fun draft : Draft => ∃ names, draft.variants.getD .none = .ofNames names) ?_ ⟨[], rfl⟩)
  refine List.forall_mem_cons.2 ⟨?_, List.forall_mem_singleton.2 ?_⟩
  · exact Yields.map ((yields_true _).mono fun _ _ draft h => h)
  · exact Yields.map ((Variants.yields_reader d).mono fun v hv draft h => hv)

namespace Config

theorem yields_reader (d : Nat) : Yields (Readable (d + 1)) (reader (d + 3)) := by
  refine Yields.map (yields_record (I := fun draft : Draft => draft.complete.Readable (d + 1)) ?_
    ⟨List.forall_mem_nil _, List.forall_mem_nil _⟩)
  simp only [fields, List.forall_mem_cons]
  have hbreakpoint : Yields (fun v => ∃ a : Json, a.Fits (d + 1) ∧ v = .ofJson a)
      (BreakpointValue.reader (d + 1)) := by
    refine Yields.form (yields_value (d + 1)) fun a v hfits hv => ⟨a, hfits, ?_⟩
    exact (Option.some.inj ((BreakpointValue.ofJson?_eq a).symm.trans hv)).symm
  refine ⟨?_, ?_, ?_, ?_, ?_, List.forall_mem_nil _⟩
  · exact Yields.map ((yields_true _).mono fun _ _ draft h => ⟨h.breakpoints, h.variants⟩)
  · exact Yields.map ((yields_true _).mono fun _ _ draft h => ⟨h.breakpoints, h.variants⟩)
  · exact Yields.map ((yields_true _).mono fun _ _ draft h => ⟨h.breakpoints, h.variants⟩)
  · exact Yields.map (hbreakpoint.object.mono fun m hm draft h => ⟨hm, h.variants⟩)
  · exact Yields.map ((Plugin.yields_reader d).array.mono fun l hl draft h => ⟨h.breakpoints, hl⟩)

/-! ### Files -/

theorem readable_of_ofJsonText {s : String} {c : Config} (h : ofJsonText s = .ok c) : c.Readable 125 :=
  of_all (yields_reader 124) h

/-- A configuration without faults is loaded as it is. -/
theorem eq_of_check {c c' : Config} (h : check c = .ok c') : c = c' := by
  rw [check] at h
  split at h
  · cases h
  · cases h
    rfl

/-- A configuration in JSON is loaded exactly if it is read from the text of the file and has no
faults. -/
theorem ofFile_eq_ok_iff {t : Tree} {p : Path} {c : Config} (hp : p.extension? = some "json") :
    ofFile t p = .ok c ↔ ∃ s, t.readText p = .ok s ∧ ofJsonText s = .ok c ∧ check c = .ok c := by
  unfold ofFile textOf
  rw [hp]
  constructor
  · intro h
    rcases hread : t.readText p with e | s <;> rw [hread] at h
    · cases h
    · simp only [Except.mapError, bind, Except.bind] at h
      split at h
      · rename_i hs
        obtain rfl := eq_of_check h
        exact ⟨s, rfl, hs, h⟩
      · cases h
  · rintro ⟨s, hread, hs, hcheck⟩
    rw [hread]
    simp only [Except.mapError, bind, Except.bind, hs]
    exact hcheck

/-- **Configurations are read back.** The text that is printed for a configuration that was loaded is
loaded as the same configuration, with everything in the same order, from whatever file it stands in. -/
theorem ofFile_toJsonText {t : Tree} {p : Path} {c : Config} (hp : p.extension? = some "json")
    (h : ofFile t p = .ok c) (hwhole : ∀ b ∈ c.breakpoints.entries, b.2.IsWhole) :
    ofJsonText c.toJsonText = .ok c ∧
      ∀ t' p', p'.extension? = some "json" → t'.readText p' = .ok c.toJsonText → ofFile t' p' = .ok c := by
  obtain ⟨s, -, hc, hcheck⟩ := (ofFile_eq_ok_iff hp).1 h
  have hprinted : ofJsonText c.toJsonText = .ok c :=
    all_pretty (restores (d := 122) (readable_of_ofJsonText hc) hwhole)
  exact ⟨hprinted, fun t' p' hp' hs => (ofFile_eq_ok_iff hp').2 ⟨_, hs, hprinted, hcheck⟩⟩

/-- The file of a configuration with utilities, variants and breakpoints of every form. -/
def everyForm : Tree := ⟨.ofList [(["c.json"], .file (.text
  ("\x7b\"files\": [\"*.html\"], \"output\": \"a\\u001f\\\"é.css\", " ++
    "\"breakpoints\": \x7b\"lg\": 990, \"md\": \"800px\", " ++
      "\"xs\": \x7b\"b\": [-1, null, \x7b\x7d], \"a\": 18446744073709551615\x7d, \"md\": [true]\x7d, " ++
    "\"plugins\": [\x7b\"utilities\": \x7b\"card\": \"p-[4px]\", " ++
      "\"box\": \x7b\"top\": \"0\", \"color\": \"red\"\x7d\x7d, \"variants\": \"hover\"\x7d, " ++
      "[\x7b\x7d, [\"lg\", \"*\"]], \x7b\"variants\": []\x7d, \x7b\"variants\": [\"sm\", \"lg\"]\x7d]\x7d")))]⟩

theorem ofFile_toJsonText_everyForm :
    ∃ c, ofFile everyForm ⟨"/c.json"⟩ = .ok c ∧ ofJsonText c.toJsonText = .ok c ∧
      c.breakpoints.keys = ["lg", "md", "xs"] ∧
      c.plugins.map (·.variants.names) = [["hover"], ["*"], [], ["sm", "lg"]] := by
  have hentries : (ofFile everyForm ⟨"/c.json"⟩).toOption.map
      (fun c => (c.breakpoints.entries, c.plugins.map (·.variants.names))) =
      some ([("lg", .pixels 990), ("md", .other (.array [.bool true])), ("xs", .other (.object
        [("a", .int 18446744073709551615), ("b", .array [.int (-1), .null, .object []])]))],
        [["hover"], ["*"], [], ["sm", "lg"]]) := by decide +kernel
  rcases hc : ofFile everyForm ⟨"/c.json"⟩ with e | c
  · rw [hc] at hentries
    cases hentries
  rw [hc] at hentries
  obtain ⟨hbreakpoints, hvariants⟩ := Prod.mk.inj (Option.some.inj hentries)
  have hwhole : ∀ b ∈ c.breakpoints.entries, b.2.IsWhole := by
    rw [hbreakpoints]
    refine List.forall_mem_cons.2 ⟨.pixels _, List.forall_mem_cons.2 ⟨.other ?_,
      List.forall_mem_singleton.2 (.other ?_)⟩⟩
    · exact .array (List.forall_mem_singleton.2 (.bool true))
    · refine .object (List.forall_mem_cons.2 ⟨.int _, List.forall_mem_singleton.2 (.array ?_)⟩)
      exact List.forall_mem_cons.2 ⟨.int _, List.forall_mem_cons.2 ⟨.null,
        List.forall_mem_singleton.2 (.object (List.forall_mem_nil _))⟩⟩
  refine ⟨c, rfl, (ofFile_toJsonText rfl hc hwhole).1, ?_, hvariants⟩
  rw [OrderedMap.keys, hbreakpoints]
  rfl

end Config

end UtilityCss
