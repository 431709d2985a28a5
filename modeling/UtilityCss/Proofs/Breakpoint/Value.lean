import UtilityCss.Breakpoint.Schema
import UtilityCss.Proofs.Json.Integer

/-!
# Any value is a breakpoint

The forms of a breakpoint are tried in order, and the last takes any value: so whatever JSON value a text
holds, it is read as the value of a breakpoint (`BreakpointValue.ofJson?_eq`, `BreakpointValue.all_reader`).
What it is read as is told by the text (`BreakpointValue.classifies`): pixels for the digits of a
number that fits, a fraction for any other number, a text for a string, and for all else the value.
-/

namespace UtilityCss
open Json

/-- A value is a number. -/
def Json.IsNumber : Json → Prop
  | .int _ | .real _ => True
  | _                => False

namespace BreakpointValue

/-- What a value is as a breakpoint, kind by kind. -/
def ofJson : Json → BreakpointValue
  | .int n    =>
    if fitsWidth 63 63 n then pixels n else fractional (.ofRatio (n < 0) n.natAbs 1)
  | .real x   => fractional x
  | .string s => text s
  | a         => other a.sorted

/-- One of the forms fits any value. -/
theorem ofJson?_eq (j : Json) : ofJson? j = some (ofJson j) := by
  cases j with
  | int n =>
      by_cases hfits : fitsWidth 63 63 n
      · rw [ofJson?, List.findSome?_cons, pixels?, ofJson, if_pos hfits, if_pos hfits]
      · -- a number that is no number of pixels comes to the next form
        rw [ofJson?, List.findSome?_cons, pixels?, ofJson, if_neg hfits, if_neg hfits]
        rfl
  | null | bool | real | string | array | object => rfl

variable {text : String} {j : Json} {n : Int}

theorem decodes_reader (d : Nat) : Decodes d (reader d) fun j => some (ofJson j) := by
  have hform : ofJson? = fun j => some (ofJson j) := funext ofJson?_eq
  rw [← hform]
  exact decodes_form d

theorem all_reader (hj : Reader.all Reader.value text = .ok j) : Reader.all reader text = .ok (ofJson j) :=
  (all_eq_ok_iff decodes_reader hj).2 rfl

theorem ofJson_eq_pixels_iff : ofJson j = pixels n ↔ j = .int n ∧ fitsWidth 63 63 n := by
  cases j with
  | int m =>
      rw [ofJson]
      split
      · rename_i hfits
        constructor
        · rintro h
          cases h
          exact ⟨rfl, hfits⟩
        · rintro ⟨h, -⟩
          cases h
          rfl
      · rename_i hfits
        constructor
        · nofun
        · rintro ⟨h, hn⟩
          cases h
          exact absurd hn hfits
  | null | bool | real | string | array | object => exact ⟨nofun, nofun⟩

/-- The text is the digits of a number that fits, between blanks, with a sign if it is below zero. -/
def IsPixels (text : String) (n : Int) : Prop :=
  fitsWidth 63 63 n ∧ Alone (toString n).toList text.toList

/-- What the value of a breakpoint says about the text that it is read from and that holds `j`. -/
structure Classifies (text : String) (j : Json) (v : BreakpointValue) : Prop where
  pixels     : ∀ n, v = .pixels n ↔ IsPixels text n
  fractional : (∃ x, v = .fractional x) ↔ j.IsNumber ∧ ∀ n, ¬ IsPixels text n
  text       : ∀ s, v = .text s ↔ j = .string s
  other      : (∃ a, v = .other a) ↔ ¬ j.IsNumber ∧ ∀ s, j ≠ .string s

theorem ofJson_eq_pixels_iff_isPixels (hj : Reader.all Reader.value text = .ok j) :
    ofJson j = pixels n ↔ IsPixels text n := by
  rw [ofJson_eq_pixels_iff, all_value_eq_int_iff hj, IsPixels]
  constructor
  · rintro ⟨⟨-, halone⟩, hfits⟩
    exact ⟨hfits, halone⟩
  · rintro ⟨hfits, halone⟩
    exact ⟨⟨fitsWidth_mono (Nat.le_refl 63) (by decide) hfits, halone⟩, hfits⟩

theorem classifies (hj : Reader.all Reader.value text = .ok j) : Classifies text j (ofJson j) := by
  have hpixels : ∀ n, ofJson j = .pixels n ↔ IsPixels text n := fun n =>
    ofJson_eq_pixels_iff_isPixels hj
  refine ⟨hpixels, ?_, ?_, ?_⟩
  · simp only [← hpixels]
    cases j with
    | int n =>
        rw [ofJson]
        split <;> simp [IsNumber]
    | real x => simp [ofJson, IsNumber]
    | null | bool | string | array | object => simp [ofJson, IsNumber]
  · intro s
    cases j with
    | int n =>
        rw [ofJson]
        split <;> simp
    | null | bool | real | string | array | object => simp [ofJson]
  · cases j with
    | int n =>
        rw [ofJson]
        split <;> simp [IsNumber]
    | null | bool | real | string | array | object => simp [ofJson, IsNumber]

end BreakpointValue

end UtilityCss
