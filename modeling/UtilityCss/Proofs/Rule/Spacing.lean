import UtilityCss.Proofs.Rule.Leading

/-!
# The sides of a spacing

A spacing sets one property for each side that its key names, or that of the whole box
(`Rule.sideProperties`), all to one text: a number with the unit `px`, a length with a unit of its own as
it is, and a math function with its calls spaced (`Generator.IsSpacingText`). The last character of a text
is kept when calls are spaced (`Math.getLast?_normalizeFrom`), so what is spaced still ends with the
parenthesis of the function, and no side is set to a bare number (`Rule.spacing_is_complete`).
-/

namespace UtilityCss
open Text Value

variable {value x : String}

namespace Math

/-- Pieces keep their last characters when they are spaced. -/
theorem getLast?_flatMap_spaced (pieces : List Piece) :
    (pieces.flatMap Piece.spaced).getLast? = (pieces.flatMap Piece.text).getLast? := by
  rcases List.eq_nil_or_concat pieces with rfl | ⟨before, last, rfl⟩
  · rfl
  · simp only [List.concat_eq_append, List.flatMap_append, List.flatMap_singleton]
    cases last with
    | kept c => simp only [Piece.spaced, Piece.text, List.getLast?_concat]
    | call name arguments =>
        simp only [Piece.spaced, Piece.text, ← List.cons_append, ← List.append_assoc,
          List.getLast?_concat]

/-- The last character of a text is kept when its calls are spaced. -/
theorem getLast?_normalizeFrom (start : Bool) (s : List Char) :
    (normalizeFrom start s).getLast? = s.getLast? := by
  obtain ⟨pieces, h⟩ := exists_divided start s
  rw [h.normalizeFrom_eq, getLast?_flatMap_spaced, h.text_eq]

/-- A math function still ends with its parenthesis when its calls are spaced. -/
theorem getLast?_normalize (h : isMathFunction value.toList) :
    (normalize value).toList.getLast? = some ')' := by
  obtain ⟨name, -, body, htext, -, -⟩ := isMathFunction_iff.1 h
  rw [normalize, String.toList_ofList, getLast?_normalizeFrom, htext, ← List.cons_append,
    ← List.append_assoc, List.getLast?_concat]

end Math

namespace Generator

/-- The units of a length that is more than a number. -/
def namedUnits : List String := ["px", "em", "rem", "%", "vh", "vw"]

/-- A length is a number or has a unit. -/
theorem isLength_iff {s : List Char} : isLength s ↔ isSigned [""] s ∨ isSigned namedUnits s := by
  have hunits : lengthUnits = [""] ++ namedUnits := rfl
  simp only [isLength, isSigned_iff, hunits, List.mem_append, or_and_right, exists_or]

/-- A length with a unit is no number. -/
theorem not_isSigned_of_namedUnits {s : List Char} (h : isSigned namedUnits s) : ¬ isSigned [""] s := by
  intro hnumber
  obtain ⟨u, hu, hread⟩ := isSigned_iff.1 h
  obtain ⟨v, hv, hread'⟩ := isSigned_iff.1 hnumber
  have hsame : u = v := String.toList_injective (Option.some.inj (hread.symm.trans hread'))
  rw [hsame, List.mem_singleton.1 hv] at hu
  exact absurd hu (by decide)

/-- A text with a character that is neither a digit nor in a sign or a point is no number. -/
theorem not_isSigned_of_mem {s : List Char} {c : Char} (hdigit : isDigit c = false)
    (hsign : c ≠ '.' ∧ c ≠ '-') (hmem : c ∈ s) : ¬ isSigned [""] s := fun h =>
  not_mem_of_isSigned hdigit hsign (by simp) h hmem

/-- A text is what a spacing value is written as. -/
structure IsSpacingText (value x : String) : Prop where
  number : isSigned [""] value.toList → x = value ++ "px"
  length : isSigned namedUnits value.toList → x = value
  call   : isMathFunction value.toList → x = Math.normalize value ∧ x.toList.getLast? = some ')'
  /-- The text is no bare number. -/
  named  : ¬ isSigned [""] x.toList

/-- No math function is a length, since it has a parenthesis. -/
theorem not_isMathFunction_of_isLength {s : List Char} (h : isLength s) : ¬ isMathFunction s := by
  intro hcall
  obtain ⟨name, -, body, rfl, -, -⟩ := Math.isMathFunction_iff.1 hcall
  exact not_mem_of_isLength h (List.mem_append_right _ List.mem_cons_self)

theorem isSpacingText_of_number (h : isSigned [""] value.toList) :
    IsSpacingText value (spacingValue value) := by
  have hlength : isLength value.toList := isLength_iff.2 (.inl h)
  have htext : spacingValue value = value ++ "px" := by
    simp only [spacingValue, Math.normalize_of_not_mem (not_mem_of_isLength hlength), h, if_true]
  rw [htext]
  refine ⟨fun _ => rfl, fun hunit => absurd h (not_isSigned_of_namedUnits hunit),
    fun hcall => absurd hcall (not_isMathFunction_of_isLength hlength), ?_⟩
  have hunit : 'p' ∈ (value ++ "px").toList := by
    rw [String.toList_append]
    exact List.mem_append_right _ (by decide)
  exact not_isSigned_of_mem (by decide) (by decide) hunit

theorem isSpacingText_of_length (h : isSigned namedUnits value.toList) :
    IsSpacingText value (spacingValue value) := by
  have hlength : isLength value.toList := isLength_iff.2 (.inr h)
  have hnumber := not_isSigned_of_namedUnits h
  have htext : spacingValue value = value := by
    simp only [spacingValue, Math.normalize_of_not_mem (not_mem_of_isLength hlength), hnumber,
      Bool.false_eq_true, if_false]
  rw [htext]
  exact ⟨fun hnumber' => absurd hnumber' hnumber, fun _ => rfl,
    fun hcall => absurd hcall (not_isMathFunction_of_isLength hlength), hnumber⟩

theorem isSpacingText_of_isMathFunction (h : isMathFunction value.toList) :
    IsSpacingText value (spacingValue value) := by
  have hlast := Math.getLast?_normalize h
  have hnumber := not_isSigned_of_mem (by decide) (by decide) (List.mem_of_mem_getLast? hlast)
  have htext : spacingValue value = Math.normalize value := by
    simp only [spacingValue, hnumber, Bool.false_eq_true, if_false]
  rw [htext]
  exact ⟨fun hnumber' => absurd h (not_isMathFunction_of_isLength (isLength_iff.2 (.inl hnumber'))),
    fun hunit => absurd h (not_isMathFunction_of_isLength (isLength_iff.2 (.inr hunit))),
    fun _ => ⟨rfl, hlast⟩, hnumber⟩

theorem isSpacingText (h : isLengthOrMath value.toList) : IsSpacingText value (spacingValue value) := by
  rw [isLengthOrMath, Bool.or_eq_true, isLength_iff] at h
  rcases h with (h | h) | h
  · exact isSpacingText_of_number h
  · exact isSpacingText_of_length h
  · exact isSpacingText_of_isMathFunction h

end Generator

namespace Rule
open Generator

/-- The properties of the sides of a box, or that of the whole box. -/
def sideProperties (property : String) : List String → List String
  | []    => [property]
  | sides => sides.map (property ++ "-" ++ ·)

theorem properties_spacing (property : String) (sides : List String) (value : String) :
    (Generator.spacing property sides).properties value = sideProperties property sides := by
  cases sides <;> rfl

/-- **Spacings are complete.** Every key for a padding or a margin takes numbers, lengths with units and
math functions, and writes one declaration for each side that it names, in the order of the table and with
single spaces between, or one for the whole box if it names none. All of them have the same text: the
number with `px`, the length, or the math function with its calls spaced, which ends with a parenthesis;
so it is never a bare number. -/
theorem spacing_is_complete {p : String × String} {d : String × List String}
    (hp : p ∈ spacingProperties) (hd : d ∈ spacingDirections) :
    ∃ r, ofKey? (p.1 ++ d.1) = some r ∧
      (∀ value, r.accepts value ↔ isSigned [""] value.toList ∨ isSigned namedUnits value.toList ∨
        isMathFunction value.toList) ∧
      ∀ value, r.accepts value → ∃ x, IsSpacingText value x ∧
        r.declarations value =
          " ".intercalate ((sideProperties p.2 d.2).map fun q => declaration q x) := by
  refine ⟨_, ofKey?_spacing hp hd, fun value => ?_, fun value h => ⟨spacingValue value, ?_, ?_⟩⟩
  · rw [accepts, Domain.accepts, isLengthOrMath, Bool.or_eq_true, isLength_iff, or_assoc]
  · exact isSpacingText h
  · rw [declarations, declarations_eq, properties_spacing]
    rfl

/-- A negative number on two sides, and a call with a group behind it on the whole box. -/
theorem spacing_is_complete_sides :
    (∃ r, ofKey? "my" = some r ∧ r.accepts "-2.50" ∧
      r.declarations "-2.50" = "margin-top: -2.50px; margin-bottom: -2.50px;") ∧
    ∃ r, ofKey? "p" = some r ∧ r.accepts "calc(1px)_+(2px)" ∧
      r.declarations "calc(1px)_+(2px)" =
        declaration "padding" (Math.normalize "calc(1px)_+(2px)") := by
  constructor
  · obtain ⟨r, hkey, haccepts, hwrites⟩ := spacing_is_complete
      (p := ("m", "margin")) (d := ("y", ["top", "bottom"])) (by decide) (by decide)
    have h : r.accepts "-2.50" := (haccepts _).2 (.inl (by decide))
    obtain ⟨x, hx, htext⟩ := hwrites _ h
    rw [hx.number (by decide)] at htext
    exact ⟨r, hkey, h, htext.trans (by decide)⟩
  · obtain ⟨r, hkey, haccepts, hwrites⟩ := spacing_is_complete
      (p := ("p", "padding")) (d := ("", [])) (by decide) (by decide)
    have h : r.accepts "calc(1px)_+(2px)" := (haccepts _).2 (.inr (.inr (by decide)))
    obtain ⟨x, hx, htext⟩ := hwrites _ h
    rw [(hx.call (by decide)).1] at htext
    exact ⟨r, hkey, h, htext.trans String.intercalate_singleton⟩

end Rule

end UtilityCss
