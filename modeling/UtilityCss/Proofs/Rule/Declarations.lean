import UtilityCss.Compiler

/-!
# The texts of declarations

A rule writes the same value for each of its properties (`Generator.declarations_eq`). So, whatever the
value, it writes one declaration or several with single spaces between, and its text ends with a
semicolon; and so do the important form of such a text and any number of such texts with spaces between
(`terminated_intercalate`). A text that ends so is not empty, which is why the texts of parts may be
joined first and looked at afterwards.
-/

namespace UtilityCss
open Text Value

/-- The text of declarations with single spaces between. -/
def rowText (ds : List (String × String)) : String :=
  " ".intercalate (ds.map fun d => declaration d.1 d.2)

/-- The text ends with a semicolon. -/
def Terminated (css : String) : Prop := ∃ s, css = s ++ ";"

variable {css : String} {l : List String}

namespace Terminated

theorem prepend (h : Terminated css) (s : String) : Terminated (s ++ css) := by
  obtain ⟨t, rfl⟩ := h
  exact ⟨s ++ t, String.append_assoc.symm⟩

theorem ne_empty (h : Terminated css) : css ≠ "" := by
  obtain ⟨t, rfl⟩ := h
  simp

end Terminated

theorem terminated_declaration (property value : String) :
    Terminated (declaration property value) := ⟨_, rfl⟩

theorem terminated_intercalate (h : ∀ t ∈ l, Terminated t) (hl : l ≠ []) :
    Terminated (" ".intercalate l) := by
  induction l with
  | nil => exact absurd rfl hl
  | cons t l ih =>
      by_cases hn : l = []
      · subst hn
        rw [String.intercalate_singleton]
        exact h t List.mem_cons_self
      · rw [String.intercalate_cons_of_ne_nil hn]
        exact (ih (fun u hu => h u (List.mem_cons_of_mem _ hu)) hn).prepend _

/-- One or more declarations with spaces between end with a semicolon. -/
theorem terminated_declarations (ds : List (String × String)) (h : ds ≠ []) :
    Terminated (rowText ds) := by
  refine terminated_intercalate (fun t ht => ?_) (by simpa using h)
  obtain ⟨d, -, rfl⟩ := List.mem_map.1 ht
  exact terminated_declaration _ _

/-! ### What rules write -/

namespace Generator

/-- The properties that a generator sets for a value, in order of output. -/
def properties (g : Generator) (value : String) : List String :=
  match g with
  | plain p | length p | leadingMath p | spacing p [] => [p]
  | spacing p sides => sides.map fun side => p ++ "-" ++ side
  | text            =>
    [if isColor value.toList then "color"
      else if isTextAlign value then "text-align"
      else if isTextTransform value then "text-transform"
      else "font-size"]
  | background      => [backgroundProperty value]
  | border          =>
    [if isSigned borderWidthUnits (folded value) then "border-width"
      else if borderStyles.contains (String.ofList (folded value)) then "border-style"
      else if isColor value.toList then "border-color"
      else "border"]
  | flex            => ["flex"]

/-- A value as a generator writes it. -/
def written (g : Generator) (value : String) : String :=
  match g with
  | plain _ | background => value
  | length _             => Math.normalize value
  | leadingMath _        => Math.normalizeLeading value
  | spacing _ _          => spacingValue value
  | text                 =>
    if isColor value.toList || isTextAlign value || isTextTransform value then value
    else Math.normalize value
  | border               =>
    if isSigned borderWidthUnits (folded value) ||
        borderStyles.contains (String.ofList (folded value)) || isColor value.toList then value
    else replaceChar '_' ' ' value
  | flex                 => replaceChar '_' ' ' value

theorem properties_ne_nil (g : Generator) (value : String) : g.properties value ≠ [] := by
  cases g with
  | spacing p sides => cases sides <;> simp [properties]
  | _ => simp [properties]

/-- A generator writes the same value for each of its properties. -/
theorem declarations_eq (g : Generator) (value : String) :
    g.declarations value =
      " ".intercalate ((g.properties value).map fun p => declaration p (g.written value)) := by
  cases g with
  | spacing p sides => cases sides <;> simp [declarations, properties, written, Function.comp_def]
  | text =>
      simp only [declarations, textDeclaration, properties, written, List.map_singleton,
        String.intercalate_singleton]
      cases isColor value.toList <;> cases isTextAlign value <;> cases isTextTransform value <;> rfl
  | border =>
      simp only [declarations, borderDeclaration, properties, written, List.map_singleton,
        String.intercalate_singleton]
      cases isSigned borderWidthUnits (folded value) <;>
        cases borderStyles.contains (String.ofList (folded value)) <;>
          cases isColor value.toList <;> rfl
  | _ => simp [declarations, properties, written]

/-- A generator writes one or more declarations with single spaces between. -/
theorem exists_declarations (g : Generator) (value : String) :
    ∃ ds : List (String × String), ds ≠ [] ∧ g.declarations value = rowText ds := by
  refine ⟨(g.properties value).map (·, g.written value), ?_, ?_⟩
  · simpa using g.properties_ne_nil value
  · rw [declarations_eq, rowText, List.map_map]
    rfl

theorem terminated_declarations (g : Generator) (value : String) :
    Terminated (g.declarations value) := by
  obtain ⟨ds, hne, h⟩ := g.exists_declarations value
  rw [h]
  exact UtilityCss.terminated_declarations ds hne

end Generator

/-- Only the last semicolon gives way to the mark. -/
theorem markImportant_append_semicolon (s : String) :
    Compiler.ruleDeclarations.markImportant (s ++ ";") = s ++ " !important;" := by
  have hdrop : dropSuffix? [';'] (s ++ ";").toList = some s.toList :=
    dropSuffix?_eq_some_iff.2 String.toList_append
  simp only [Compiler.ruleDeclarations.markImportant, hdrop, String.ofList_toList]

theorem terminated_markImportant (css : String) :
    Terminated (Compiler.ruleDeclarations.markImportant css) := by
  have h : Terminated " !important;" := ⟨" !important", rfl⟩
  exact h.prepend _

end UtilityCss
