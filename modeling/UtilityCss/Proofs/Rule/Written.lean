import UtilityCss.Proofs.Math.Layout
import UtilityCss.Proofs.Rule.Declarations
import UtilityCss.Proofs.Value.Tame

/-!
# What is written of a class

A rule that a class names sets properties of letters and hyphens (`Rule.isPropertyName_of_ofClass?`)
to a value that is a part of the class (`Rule.mem_of_ofClass?`). Writing a value respaces it, but
neither adds nor takes away a mark (`Generator.isMark_mem_written`); and a value that the rule accepts
has no marks, if it is not a math function (`Rule.isTame_or_isMathFunction`).
-/

namespace UtilityCss
open Text Value

/-! ### Marks -/

theorem not_isBlank_of_isMark {c : Char} (h : isMark c) : isBlank c = false ∧ c ≠ '_' := by
  simpa using of_isMark (p := fun m => !isBlank m && m != '_') (by decide) h

namespace Generator

theorem filter_isMark_replaceChar (v : String) :
    (replaceChar '_' ' ' v).toList.filter isMark = v.toList.filter isMark := by
  rw [replaceChar, String.toList_ofList]
  induction v.toList with
  | nil => rfl
  | cons c s ih =>
      rw [List.map_cons, List.filter_cons, List.filter_cons, ih]
      by_cases hc : c = '_'
      · rw [hc]
        rfl
      · rw [if_neg hc]

theorem filter_isMark_spacingValue (v : String) :
    (spacingValue v).toList.filter isMark = v.toList.filter isMark := by
  have hnormal := Math.filter_normalize (p := isMark) (fun _ => not_isBlank_of_isMark) v
  simp only [spacingValue]
  split
  · rw [String.toList_append, List.filter_append, hnormal]
    simp [isMark, marks]
  · exact hnormal

/-- Writing a value keeps its marks. -/
theorem filter_isMark_written (g : Generator) (v : String) :
    (g.written v).toList.filter isMark = v.toList.filter isMark := by
  have hnormal := Math.filter_normalize (p := isMark) (fun _ => not_isBlank_of_isMark) v
  cases g with
  | plain _ | background => rfl
  | length _ => exact hnormal
  | leadingMath _ => exact Math.filter_normalizeLeading (fun _ => not_isBlank_of_isMark) v
  | spacing _ _ => exact filter_isMark_spacingValue v
  | text =>
      simp only [written]
      split
      · rfl
      · exact hnormal
  | border =>
      simp only [written]
      split
      · rfl
      · exact filter_isMark_replaceChar v
  | flex => exact filter_isMark_replaceChar v

theorem isMark_mem_written {c : Char} (hc : isMark c) (g : Generator) (v : String) :
    c ∈ (g.written v).toList ↔ c ∈ v.toList := by
  have h := congrArg (c ∈ ·) (g.filter_isMark_written v)
  simpa [hc] using h

end Generator

/-! ### Properties -/

/-- A name of letters and hyphens. -/
def IsPropertyName (p : String) : Prop := p ≠ "" ∧ p.toList.all fun c => c.isAlpha || c = '-'

instance (p : String) : Decidable (IsPropertyName p) := inferInstanceAs (Decidable (_ ∧ _))

theorem IsPropertyName.isTame {p : String} (h : IsPropertyName p) : IsTame p.toList :=
  isTame_of_all (by decide) h.2

namespace Generator

/-- The properties that a generator may set. -/
def allProperties : Generator → List String
  | plain p | length p | leadingMath p | spacing p [] => [p]
  | spacing p sides => sides.map fun side => p ++ "-" ++ side
  | text            => ["color", "text-align", "text-transform", "font-size"]
  | background      => ["background-color", "background"]
  | border          => ["border-width", "border-style", "border-color", "border"]
  | flex            => ["flex"]

theorem mem_allProperties {g : Generator} {value p : String} (h : p ∈ g.properties value) :
    p ∈ g.allProperties := by
  cases g with
  | spacing q sides => cases sides <;> exact h
  | plain _ | length _ | leadingMath _ | flex => exact h
  | text =>
      rw [List.mem_singleton.1 h]
      split
      · simp [allProperties]
      split
      · simp [allProperties]
      split <;> simp [allProperties]
  | background =>
      rw [List.mem_singleton.1 h, backgroundProperty]
      split <;> simp [allProperties]
  | border =>
      rw [List.mem_singleton.1 h]
      split
      · simp [allProperties]
      split
      · simp [allProperties]
      split <;> simp [allProperties]

end Generator

/-! ### Classes -/

namespace Rule

variable {name value : String} {r : Rule}

theorem mem_of_bracketForm? {s key value : List Char} (h : bracketForm? s = some (key, value)) :
    ∀ c ∈ value, c ∈ s := by
  unfold bracketForm? at h
  split at h
  · rename_i hvalue
    split at h
    · cases h
      intro c hc
      have hmem : c ∈ (s.dropWhile (· ≠ '[')).drop 1 := by
        rw [dropSuffix?_eq_some_iff.1 hvalue]
        exact List.mem_append_left _ hc
      exact (List.dropWhile_suffix _).subset (List.mem_of_mem_drop hmem)
    · cases h
  · cases h

/-- A class names a rule of the tables. The value is the class itself if it is a keyword, and a part of
it otherwise. -/
theorem ofClass?_cases (h : ofClass? name = some (r, value)) :
    (r ∈ keywords ∧ r.key = name ∧ value = name) ∨
      (r ∈ keyed ∧ ∀ c ∈ value.toList, c ∈ name.toList) := by
  unfold ofClass? at h
  split at h
  · rename_i r' hr
    cases h
    exact .inl ⟨List.mem_of_find?_eq_some hr, by simpa using List.find?_some hr, rfl⟩
  split at h
  · rename_i key v hform
    obtain ⟨r', hr, he⟩ := Option.map_eq_some_iff.1 h
    cases he
    refine .inr ⟨List.mem_of_find?_eq_some hr, ?_⟩
    rw [String.toList_ofList]
    exact mem_of_bracketForm? hform
  · obtain ⟨⟨key, v⟩, hcut, hfound⟩ := List.exists_of_findSome?_eq_some h
    obtain ⟨r', hr, he⟩ := Option.map_eq_some_iff.1 hfound
    cases he
    refine .inr ⟨List.mem_of_find?_eq_some hr, ?_⟩
    obtain ⟨-, l, hs, -⟩ := mem_hyphenCuts.1 hcut
    rw [String.toList_ofList, hs]
    exact fun c hc => List.mem_append_right l (List.mem_cons_of_mem _ hc)

theorem mem_of_ofClass? (h : ofClass? name = some (r, value)) : ∀ c ∈ value.toList, c ∈ name.toList := by
  rcases ofClass?_cases h with ⟨-, -, rfl⟩ | ⟨-, hvalue⟩
  · exact fun _ hc => hc
  · exact hvalue

theorem isPropertyName_of_ofClass? (h : ofClass? name = some (r, value)) :
    ∀ p ∈ r.generator.properties value, IsPropertyName p := by
  have htable : ∀ r ∈ keywords ++ keyed, ∀ p ∈ r.generator.allProperties, IsPropertyName p := by
    decide +kernel
  have hr : r ∈ keywords ++ keyed := by
    rcases ofClass?_cases h with ⟨hr, -⟩ | ⟨hr, -⟩
    · exact List.mem_append_left _ hr
    · exact List.mem_append_right _ hr
  exact fun p hp => htable r hr p (Generator.mem_allProperties hp)

theorem isTame_or_isMathFunction (h : ofClass? name = some (r, value)) (hv : r.accepts value) :
    IsTame value.toList ∨ isMathFunction value.toList := by
  rcases ofClass?_cases h with ⟨hr, rfl, rfl⟩ | ⟨hr, -⟩
  · have htame : ∀ r ∈ keywords, IsTame r.key.toList := by decide +kernel
    exact .inl (htame r hr)
  · have hany : ∀ r ∈ keyed, r.domain ≠ .any := by decide +kernel
    exact Domain.isTame_or_isMathFunction (hany r hr) hv

end Rule

end UtilityCss
