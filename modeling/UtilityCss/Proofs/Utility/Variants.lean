import UtilityCss.Proofs.OrderedMap
import UtilityCss.Utility.Schema

/-!
# Variants that are listed

Variants that are given as a list of names allow these names and no others, unless `*` is one of them
(`Variants.allowsName_ofNames`). A token passes if it asks for nothing, or if the list has `*`, its
breakpoint or its pseudo-class (`Utility.admits_iff`).
-/

namespace UtilityCss

theorem Json.strings?_map (l : List String) : strings? (l.map .string) = some l := by
  induction l with
  | nil => rfl
  | cons s l ih =>
      rw [strings?] at ih ⊢
      rw [List.map_cons, List.mapM_cons, ih]
      rfl

namespace Variants

variable {v : Variants} {names : List String} {name : String} {media pseudo : Option String}

theorem contains_ofList_map : (OrderedMap.ofList (names.map (·, ()))).contains name ↔ name ∈ names := by
  have hfst : (names.map (·, ())).map Prod.fst = names := by
    rw [List.map_map]
    exact List.map_id _
  rw [OrderedMap.contains_iff, OrderedMap.keys_ofList, hfst, List.mem_eraseDups]

theorem ofNames_of_star (h : "*" ∈ names) : ofNames names = .all := if_pos (contains_ofList_map.2 h)

theorem ofNames_of_not_star (h : "*" ∉ names) : ofNames names =
    if (OrderedMap.ofList (names.map (·, ()))).isEmpty then .none
    else .only (OrderedMap.ofList (names.map (·, ()))) :=
  if_neg fun hmem => h (contains_ofList_map.1 hmem)

/-- Listed names are allowed, and nothing else is. -/
theorem allowsName_ofNames (h : "*" ∉ names) : (ofNames names).allowsName name ↔ name ∈ names := by
  rw [ofNames_of_not_star h]
  split
  · rename_i hempty
    cases names with
    | nil => simp [allowsName]
    | cons n names =>
        have hn : n ∈ (OrderedMap.ofList ((n :: names).map (·, ()))).keys :=
          OrderedMap.contains_iff.1 (contains_ofList_map.2 List.mem_cons_self)
        rw [OrderedMap.keys, List.isEmpty_iff.1 hempty] at hn
        cases hn
  · exact contains_ofList_map

theorem allows_of_ne_all (h : v ≠ .all) :
    v.allows media pseudo = (media.any v.allowsName || pseudo.any v.allowsName) := by
  unfold allows
  split
  · exact absurd rfl h
  · rfl

theorem ofNames_ne_all (h : "*" ∉ names) : ofNames names ≠ .all := by
  rw [ofNames_of_not_star h]
  split <;> nofun

/-- What a list of names lets through. -/
theorem allows_ofNames : (ofNames names).allows media pseudo ↔
    "*" ∈ names ∨ (∃ m ∈ media, m ∈ names) ∨ ∃ p ∈ pseudo, p ∈ names := by
  by_cases hstar : "*" ∈ names
  · simp [ofNames_of_star hstar, allows, hstar]
  · rw [allows_of_ne_all (ofNames_ne_all hstar), Bool.or_eq_true, Option.any_eq_true, Option.any_eq_true]
    simp only [allowsName_ofNames hstar, hstar, false_or]
    rfl

/-- A list of names is read as the variants that it lists. -/
theorem ofJson?_strings (names : List String) :
    ofJson? (.array (names.map .string)) = some (ofNames names) := by
  rw [ofJson?, Json.strings?_map, Option.map_some]

end Variants

/-- A utility with listed variants admits a token that asks for nothing, and one that asks for something
that is listed. -/
theorem Utility.admits_iff {styles : Styles} {names : List String} {t : Token} :
    (Utility.mk styles (.ofNames names)).admits t ↔ (t.media = none ∧ t.pseudo = none) ∨ "*" ∈ names ∨
      (∃ m ∈ t.media, m.name ∈ names) ∨ ∃ p ∈ t.pseudo, p.name ∈ names := by
  have hnothing : (!t.hasVariant) = true ↔ t.media = none ∧ t.pseudo = none := by
    simp [Token.hasVariant]
  rw [admits, Bool.or_eq_true, hnothing, Variants.allows_ofNames]
  simp

end UtilityCss
