import UtilityCss.Proofs.Breakpoint.Number
import UtilityCss.Proofs.Breakpoint.Report

/-!
# Configured breakpoints over the default ones

One breakpoint over a table changes the width of its own name at most (`BreakpointTable.get?_override`),
adds this name at the end if it is new and denotes a width (`keys_override`), and else is reported. With
names that differ, what stands in the table for a name when its turn comes is what stood there before all of
them. So the order of the configuration decides only where new names and reports stand (`keys_overrideAll`,
`reports_overrideAll`), and a report names the default width and no other (`ofOverrides_merges`).
-/

namespace UtilityCss.BreakpointTable

variable {t : BreakpointTable} {name other : String} {v : BreakpointValue}
  {l : List (String × BreakpointValue)}

/-! ### One breakpoint over a table -/

theorem get?_override : (t.override other v).1.get? name =
    if name = other then v.toPixels?.or (t.get? name) else t.get? name := by
  by_cases h : name = other
  · subst h
    rw [if_pos rfl, override]
    cases v.toPixels? with
    | none => rfl
    | some width => exact OrderedMap.get?_insert_self
  · rw [if_neg h]
    exact congrArg Prod.fst (about_override_of_ne h)

theorem contains_override_of_ne (h : name ≠ other) :
    (t.override other v).1.contains name = t.contains name := by
  have hget : (t.override other v).1.get? name = t.get? name := by rw [get?_override, if_neg h]
  exact congrArg Option.isSome hget

theorem rejection_override_of_ne {w : BreakpointValue} (h : name ≠ other) :
    (t.override other v).1.rejection name w = t.rejection name w := by
  rw [rejection, rejection, get?_override, if_neg h]

/-- A name is added if it is new and its value denotes a width. -/
def adds (t : BreakpointTable) (e : String × BreakpointValue) : Bool :=
  e.2.toPixels?.isSome && !t.contains e.1

theorem keys_override : (t.override name v).1.widths.keys =
    t.widths.keys ++ if t.adds (name, v) then [name] else [] := by
  rw [override, adds]
  cases v.toPixels? with
  | none => simp
  | some width =>
      have hkeys : (t.insert name width).widths.keys =
          if name ∈ t.widths.keys then t.widths.keys else t.widths.keys ++ [name] :=
        OrderedMap.keys_insert
      have hmem : t.contains name = true ↔ name ∈ t.widths.keys := OrderedMap.contains_iff
      show (t.insert name width).widths.keys = _
      rw [hkeys]
      by_cases h : name ∈ t.widths.keys
      · simp [h, hmem.2 h]
      · have hnew : t.contains name = false := Bool.eq_false_iff.2 fun hold => h (hmem.1 hold)
        simp [h, hnew]

theorem reports_override : (t.override name v).2 =
    if v.toPixels?.isNone then [t.rejection name v] else [] := by
  rw [override]
  cases v.toPixels? with
  | none => rfl
  | some width => rfl

/-! ### Breakpoints with different names -/

theorem ne_of_nodup_cons {e e' : String × BreakpointValue} (h : ((e :: l).map Prod.fst).Nodup)
    (he' : e' ∈ l) : e'.1 ≠ e.1 := by
  intro heq
  rw [List.map_cons, List.nodup_cons] at h
  exact h.1 (heq ▸ List.mem_map_of_mem he')

theorem keys_overrideAll (h : (l.map Prod.fst).Nodup) :
    (t.overrideAll l).1.widths.keys = t.widths.keys ++ (l.filter t.adds).map Prod.fst := by
  induction l generalizing t with
  | nil => simp [overrideAll]
  | cons e l ih =>
      -- the later names are as new to the changed table as to the table before
      have hadds : ∀ e' ∈ l, (t.override e.1 e.2).1.adds e' = t.adds e' := by
        intro e' he'
        rw [adds, adds, contains_override_of_ne (ne_of_nodup_cons h he')]
      have hlater := ih (t := (t.override e.1 e.2).1) h.of_cons
      rw [List.filter_congr hadds, keys_override] at hlater
      show ((t.override e.1 e.2).1.overrideAll l).1.widths.keys = _
      rw [hlater, List.append_assoc, List.filter_cons]
      by_cases hnew : t.adds e
      · simp [hnew]
      · simp [hnew]

theorem reports_overrideAll (h : (l.map Prod.fst).Nodup) :
    (t.overrideAll l).2 = (rejected l).map fun e => t.rejection e.1 e.2 := by
  induction l generalizing t with
  | nil => rfl
  | cons e l ih =>
      have hlater := ih (t := (t.override e.1 e.2).1) h.of_cons
      have hsame : ∀ e' ∈ rejected l,
          (t.override e.1 e.2).1.rejection e'.1 e'.2 = t.rejection e'.1 e'.2 := by
        intro e' he'
        exact rejection_override_of_ne (ne_of_nodup_cons h (List.mem_of_mem_filter he'))
      rw [List.map_congr_left hsame] at hlater
      show (t.override e.1 e.2).2 ++ ((t.override e.1 e.2).1.overrideAll l).2 = _
      rw [hlater, reports_override, rejected, rejected, List.filter_cons]
      by_cases hnone : e.2.toPixels?.isNone
      · simp [hnone]
      · simp [hnone]

/-- A name has the width that is configured for it, or the one that it had. -/
theorem get?_overrideAll (overrides : OrderedMap String BreakpointValue) :
    (t.overrideAll overrides.entries).1.get? name =
      ((overrides.get? name).bind BreakpointValue.toPixels?).or (t.get? name) := by
  cases hv : overrides.get? name with
  | none =>
      have hmem : name ∉ overrides.entries.map Prod.fst := by
        intro hmem
        rw [← OrderedMap.keys, ← OrderedMap.get?_isSome_iff, hv] at hmem
        cases hmem
      exact congrArg Prod.fst (about_overrideAll_of_not_mem hmem)
  | some v =>
      have halone := about_overrideAll (t := t) overrides.nodup (OrderedMap.mem_entries_of_get? hv)
      have hself : (t.override name v).1.get? name = v.toPixels?.or (t.get? name) := by
        rw [get?_override, if_pos rfl]
      exact (congrArg Prod.fst halone).trans hself

/-! ### The default names -/

theorem entries_default : default.widths.entries = defaultWidths :=
  OrderedMap.entries_ofList (by decide)

theorem keys_default : default.widths.keys = defaultWidths.map Prod.fst :=
  congrArg (List.map Prod.fst) entries_default

theorem contains_default : default.contains name = decide (name ∈ defaultWidths.map Prod.fst) := by
  rw [Bool.eq_iff_iff, decide_eq_true_iff, ← keys_default]
  exact OrderedMap.contains_iff

theorem get?_default : default.get? name = defaultWidths.lookup name := by
  rw [← entries_default]
  exact OrderedMap.get?_eq_lookup

/-- **Configured breakpoints are merged one by one.**  The table of a configuration begins with the six
default names in their order; behind them stand the other names whose values denote a width, in the order
of the configuration, and no name stands there twice. A name has the width that is configured for it, if
that is one, or else its default width, or else none. The reports are one warning for each entry whose
value denotes no width, in the order of the configuration: it names the entry, and it says that the default
width is used, and which, if the name has one, and else that the entry is ignored. -/
theorem ofOverrides_merges (overrides : OrderedMap String BreakpointValue) :
    let r := ofOverrides overrides
    r.1.toList.map Prod.fst = defaultWidths.map Prod.fst ++ (overrides.entries.filter fun e =>
      e.2.toPixels?.isSome ∧ e.1 ∉ defaultWidths.map Prod.fst).map Prod.fst ∧
    (r.1.toList.map Prod.fst).Nodup ∧
    (∀ name, r.1.get? name =
      ((overrides.get? name).bind BreakpointValue.toPixels?).or (defaultWidths.lookup name)) ∧
    r.2 = (overrides.entries.filter (·.2.toPixels?.isNone)).map fun e =>
      .warning ("Invalid breakpoint value " ++ e.2.display ++ ", " ++
        (match defaultWidths.lookup e.1 with
          | some width => "using default value " ++ toString width ++ "px instead"
          | none       => "breakpoint ignored")) e.1 := by
  intro r
  have hkeys : r.1.toList.map Prod.fst =
      default.widths.keys ++ (overrides.entries.filter default.adds).map Prod.fst :=
    keys_overrideAll overrides.nodup
  refine ⟨?_, r.1.widths.nodup, fun name => ?_, ?_⟩
  · rw [hkeys, keys_default]
    refine congrArg (fun l => _ ++ List.map Prod.fst l) (List.filter_congr fun e _ => ?_)
    simp [adds, contains_default]
  · rw [← get?_default]
    exact get?_overrideAll overrides
  · refine (reports_overrideAll overrides.nodup).trans (List.map_congr_left fun e _ => ?_)
    rw [← get?_default]
    rfl

end UtilityCss.BreakpointTable
