import UtilityCss.Proofs.Value.Color
import UtilityCss.Rule.Generator

/-!
# The property of a border

A border value of several parts is written as a border; a single part is a width if it is a length, a
style if it is a word for one, and else a color (`Generator.borderMeaning`). The domain looks at a value
without the blanks around it and in lower case, with every unit of lengths. The generator knows three of
the units for widths, and it looks for a color in the value as it is. So the declaration is the one that
is meant exactly if the value has none of the other units, and is plain if it is a color
(`Generator.border_declares_iff`); otherwise a single part is written as a border.
-/

namespace UtilityCss
open Text Value

variable {value : String}

namespace Value

/-- No length is a color. -/
theorem not_isColor_of_isLength {s : List Char} (h : isLength s) : ¬ isColor s := by
  intro hcolor
  obtain ⟨c, hc, hlength⟩ := head?_of_isSigned h
  rcases hlength with rfl | hdigit
  · exact absurd (head?_of_isColor hcolor '-' hc) (by decide)
  · rcases head?_of_isColor hcolor c hc with rfl | halpha
    · exact absurd hdigit (by decide)
    · have hletter := forall_alphanum (p := fun c => !c.isAlpha || !isDigit c) (by decide +kernel)
        (isAlphanum_of_isAlpha halpha)
      simp [halpha, hdigit] at hletter

theorem mem_folded_iff {c : Char} (hblank : isBlank c = false)
    (hcase : capitals.all fun d => lowerChar d != c && d != c) : c ∈ folded value ↔ c ∈ value.toList := by
  rw [folded, mem_lower_iff hcase]
  exact ⟨mem_of_mem_trim, mem_trim hblank⟩

/-- What is not so of any word for a style is not so of a value that is one. -/
theorem not_of_style {P : List Char → Prop} (hwords : ∀ t ∈ borderStyles, ¬ P t.toList)
    (h : String.ofList (folded value) ∈ borderStyles) : ¬ P (folded value) := by
  have hword := hwords _ h
  rwa [String.toList_ofList] at hword

/-- A single part that is accepted is a width, a style or a color. -/
theorem kind_of_accepts (h : Domain.border.accepts value) (hone : '_' ∉ value.toList) :
    isLength (folded value) ∨ String.ofList (folded value) ∈ borderStyles ∨ isColor (folded value) := by
  have hone' : '_' ∉ folded value := fun hmem => hone ((mem_folded_iff (by decide) (by decide)).1 hmem)
  have hsplit : split '_' (String.ofList (folded value)) = [String.ofList (folded value)] := by
    rw [split, String.toList_ofList, List.splitOn_eq_singleton hone', List.map_singleton]
  have hall := List.all_eq_true.1 h
  rw [hsplit] at hall
  simpa only [isBorderPart, Bool.or_eq_true, List.contains_iff_mem, String.toList_ofList, or_assoc]
    using hall _ List.mem_cons_self

end Value

namespace Generator

/-- The units of a length that a border does not take for a width. -/
def otherUnits : List String := ["%", "vh", "vw"]

/-- The declaration that a border value stands for. -/
def borderMeaning (value : String) : String :=
  if '_' ∈ value.toList then declaration "border" (replaceChar '_' ' ' value)
  else if isLength (folded value) then declaration "border-width" value
  else if String.ofList (folded value) ∈ borderStyles then declaration "border-style" value
  else declaration "border-color" value

/-- A border value is read as its domain reads it: a length has none of the other units, and a color is
plain, unless it is a word for a style. -/
structure IsReadAsMeant (value : String) : Prop where
  width : isLength (folded value) → ∀ u ∈ otherUnits, ¬ u.toList <:+ folded value
  color : isColor (folded value) → String.ofList (folded value) ∉ borderStyles →
    IsPlainColor value.toList

/-- A length is read as a width exactly if its unit is none of the others. -/
theorem isSigned_borderWidthUnits_iff {s : List Char} (h : isLength s) :
    isSigned borderWidthUnits s ↔ ∀ u ∈ otherUnits, ¬ u.toList <:+ s := by
  constructor
  · intro hwidth u hu hsuffix
    -- each of the other units has a character that no width has
    have hnot : ∀ c, isDigit c = false → c ≠ '.' ∧ c ≠ '-' →
        (∀ u ∈ borderWidthUnits, c ∉ u.toList) → c ∉ u.toList := fun c hdigit hsign hunits hmem =>
      not_mem_of_isSigned hdigit hsign hunits hwidth (hsuffix.subset hmem)
    simp only [otherUnits, List.mem_cons, List.not_mem_nil, or_false] at hu
    rcases hu with rfl | rfl | rfl
    · exact hnot '%' (by decide) (by decide) (by decide) (by decide)
    · exact hnot 'h' (by decide) (by decide) (by decide) (by decide)
    · exact hnot 'w' (by decide) (by decide) (by decide) (by decide)
  · intro hnone
    obtain ⟨u, hu, hread⟩ := isSigned_iff.1 h
    have hsuffix : u.toList <:+ s := (suffix_of_unsigned? hread).trans (suffix_dropMinus s)
    rcases (by decide : ∀ u ∈ lengthUnits, u ∈ borderWidthUnits ∨ u ∈ otherUnits) u hu with hu | hu
    · exact isSigned_iff.2 ⟨u, hu, hread⟩
    · exact absurd hsuffix (hnone u hu)

/-! ### What is written -/

theorem declaration_inj {p q : String} : declaration p value = declaration q value ↔ p = q := by
  simp only [declaration, String.append_left_inj]

theorem border_of_isSigned (h : isSigned borderWidthUnits (folded value)) :
    border.declarations value = declaration "border-width" value := by
  simp only [declarations, borderDeclaration, h, if_true]

/-- What is no width, style or color is written as a border. -/
theorem border_of_unread (hwidth : ¬ isSigned borderWidthUnits (folded value))
    (hstyle : String.ofList (folded value) ∉ borderStyles) (hcolor : ¬ isColor value.toList) :
    border.declarations value = declaration "border" (replaceChar '_' ' ' value) := by
  simp only [declarations, borderDeclaration, List.contains_iff_mem, hwidth, hstyle, hcolor,
    Bool.false_eq_true, if_false]

/-- No part of a value is read if there are several. -/
theorem border_of_parts (h : '_' ∈ value.toList) :
    border.declarations value = declaration "border" (replaceChar '_' ' ' value) ∧
      IsReadAsMeant value := by
  have hmem : '_' ∈ folded value := (mem_folded_iff (by decide) (by decide)).2 h
  have hlength : ¬ isLength (folded value) := by
    intro hlength
    exact not_mem_of_isSigned (by decide) (by decide) (by decide) hlength hmem
  have hstyle : String.ofList (folded value) ∉ borderStyles := fun hstyle =>
    not_of_style (P := ('_' ∈ ·)) (by decide) hstyle hmem
  have hcolor : ∀ {s : List Char}, '_' ∈ s → ¬ isColor s := fun hmem hcolor =>
    not_mem_of_isColor (by decide) (by decide) hcolor hmem
  refine ⟨border_of_unread (fun hwidth => hlength ?_) hstyle (hcolor h), ?_, ?_⟩
  · exact isSigned_mono (by decide) hwidth
  · exact fun h => absurd h hlength
  · exact fun h => absurd h (hcolor hmem)

theorem border_of_isLength (h : isLength (folded value)) (hone : '_' ∉ value.toList) :
    border.declarations value =
      declaration (if isSigned borderWidthUnits (folded value) then "border-width" else "border") value := by
  split
  · rename_i hwidth
    exact border_of_isSigned hwidth
  · rename_i hwidth
    have hstyle : String.ofList (folded value) ∉ borderStyles := fun hstyle =>
      not_of_style (P := (isLength ·)) (by decide) hstyle h
    have hcolor : ¬ isColor value.toList :=
      fun hcolor => not_isColor_of_isLength h (isColor_iff.1 hcolor).1
    rw [border_of_unread hwidth hstyle hcolor, replaceChar_of_not_mem hone]

theorem border_of_style (h : String.ofList (folded value) ∈ borderStyles) :
    border.declarations value = declaration "border-style" value := by
  have hwidth : ¬ isSigned borderWidthUnits (folded value) :=
    not_of_style (P := (isSigned borderWidthUnits ·)) (by decide) h
  simp only [declarations, borderDeclaration, List.contains_iff_mem, hwidth, h, Bool.false_eq_true,
    if_false, if_true]

theorem border_of_isColor (h : isColor (folded value))
    (hstyle : String.ofList (folded value) ∉ borderStyles) (hone : '_' ∉ value.toList) :
    border.declarations value =
      declaration (if isColor value.toList then "border-color" else "border") value := by
  have hwidth : ¬ isSigned borderWidthUnits (folded value) := fun hwidth =>
    not_isColor_of_isLength (isSigned_mono (by decide) hwidth) h
  split
  · rename_i hcolor
    simp only [declarations, borderDeclaration, List.contains_iff_mem, hwidth, hstyle, hcolor,
      Bool.false_eq_true, if_false, if_true]
  · rename_i hcolor
    rw [border_of_unread hwidth hstyle hcolor, replaceChar_of_not_mem hone]

/-- A single part is written as it is meant if it is read so, and as a border if it is not. -/
theorem border_of_part (h : Domain.border.accepts value) (hone : '_' ∉ value.toList) :
    ∃ p, p ≠ "border" ∧ borderMeaning value = declaration p value ∧
      (IsReadAsMeant value → border.declarations value = declaration p value) ∧
      (¬ IsReadAsMeant value → border.declarations value = declaration "border" value) := by
  by_cases hlength : isLength (folded value)
  · have hread : IsReadAsMeant value ↔ isSigned borderWidthUnits (folded value) := by
      rw [isSigned_borderWidthUnits_iff hlength]
      exact ⟨fun hread => hread.width hlength,
        fun hunits => ⟨fun _ => hunits, fun hcolor => absurd hcolor (not_isColor_of_isLength hlength)⟩⟩
    refine ⟨"border-width", by decide, by simp [borderMeaning, hone, hlength], ?_, ?_⟩
    · intro hmeant
      rw [border_of_isLength hlength hone, if_pos (hread.1 hmeant)]
    · intro hmeant
      rw [border_of_isLength hlength hone, if_neg (mt hread.2 hmeant)]
  by_cases hstyle : String.ofList (folded value) ∈ borderStyles
  · have hmeant : IsReadAsMeant value :=
      ⟨fun hlength' => absurd hlength' hlength, fun _ hstyle' => absurd hstyle hstyle'⟩
    exact ⟨"border-style", by decide, by simp [borderMeaning, hone, hlength, hstyle],
      fun _ => border_of_style hstyle, fun hnot => absurd hmeant hnot⟩
  · have hcolor : isColor (folded value) :=
      ((kind_of_accepts h hone).resolve_left hlength).resolve_left hstyle
    have hread : IsReadAsMeant value ↔ isColor value.toList :=
      ⟨fun hread => isColor_iff.2 ⟨hcolor, hread.color hcolor hstyle⟩,
        fun hplain => ⟨fun hlength' => absurd hlength' hlength, fun _ _ => (isColor_iff.1 hplain).2⟩⟩
    refine ⟨"border-color", by decide, by simp [borderMeaning, hone, hlength, hstyle], ?_, ?_⟩
    · intro hmeant
      rw [border_of_isColor hcolor hstyle hone, if_pos (hread.1 hmeant)]
    · intro hmeant
      rw [border_of_isColor hcolor hstyle hone, if_neg (mt hread.2 hmeant)]

/-- **A border sets the property that its value belongs to exactly if the value is read as it is meant.**
A single part that is not is written as a border. A single part that is accepted is a color if it is
neither a length nor a word for a style. -/
theorem border_declares_iff (h : Domain.border.accepts value) :
    (border.declarations value = borderMeaning value ↔ IsReadAsMeant value) ∧
    (¬ IsReadAsMeant value → border.declarations value = declaration "border" value) ∧
    ('_' ∉ value.toList → isLength (folded value) ∨ String.ofList (folded value) ∈ borderStyles ∨
      isColor (folded value)) := by
  by_cases hone : '_' ∈ value.toList
  · obtain ⟨hparts, hmeant⟩ := border_of_parts hone
    have hmeaning : borderMeaning value = declaration "border" (replaceChar '_' ' ' value) :=
      if_pos hone
    exact ⟨iff_of_true (hparts.trans hmeaning.symm) hmeant, fun hnot => absurd hmeant hnot,
      fun hnone => absurd hone hnone⟩
  · obtain ⟨p, hp, hmeaning, hread, hunread⟩ := border_of_part h hone
    refine ⟨⟨fun hsame => ?_, fun hmeant => (hread hmeant).trans hmeaning.symm⟩, hunread,
      fun _ => kind_of_accepts h hone⟩
    by_contra hmeant
    rw [hunread hmeant, hmeaning, declaration_inj] at hsame
    exact hp hsame.symm

/-- A width and a style in mixed case between blanks, several parts, a call with capitals in its name. -/
theorem border_declares_iff_mixed_case :
    (IsReadAsMeant " 2.5ReM\t" ∧ border.declarations " 2.5ReM\t" = "border-width:  2.5ReM\t;") ∧
    (IsReadAsMeant " Solid" ∧ border.declarations " Solid" = "border-style:  Solid;") ∧
    (IsReadAsMeant "5vh_RED" ∧ border.declarations "5vh_RED" = "border: 5vh RED;") ∧
    (¬ IsReadAsMeant "rgB(1, 2, 3)" ∧
      border.declarations "rgB(1, 2, 3)" = declaration "border" "rgB(1, 2, 3)") := by
  have hwidth := border_declares_iff (by decide +kernel : Domain.border.accepts " 2.5ReM\t")
  have hstyle := border_declares_iff (by decide +kernel : Domain.border.accepts " Solid")
  have hparts := border_declares_iff (by decide +kernel : Domain.border.accepts "5vh_RED")
  have hcolor := border_declares_iff (by decide +kernel : Domain.border.accepts "rgB(1, 2, 3)")
  have hunread : ¬ IsReadAsMeant "rgB(1, 2, 3)" := mt hcolor.1.2 (by decide +kernel)
  exact ⟨⟨hwidth.1.1 (by decide +kernel), by decide +kernel⟩,
    ⟨hstyle.1.1 (by decide +kernel), by decide +kernel⟩,
    ⟨hparts.1.1 (by decide +kernel), by decide +kernel⟩, hunread, hcolor.2.1 hunread⟩

/-- A length in the height of the view is written as no width, and a color behind a blank, or with
capitals in the name of a call, as no color. -/
theorem border_declarations_ne_meaning :
    (Domain.border.accepts "5vh" ∧ borderMeaning "5vh" = "border-width: 5vh;" ∧
      border.declarations "5vh" = "border: 5vh;") ∧
    (Domain.border.accepts "RGB(1,2,3)" ∧ borderMeaning "RGB(1,2,3)" = "border-color: RGB(1,2,3);" ∧
      border.declarations "RGB(1,2,3)" = "border: RGB(1,2,3);") ∧
    (Domain.border.accepts " red" ∧ borderMeaning " red" = "border-color:  red;" ∧
      border.declarations " red" = "border:  red;") := by
  decide +kernel

end Generator

end UtilityCss
