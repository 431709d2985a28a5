import UtilityCss.Proofs.Math.OneCall
import UtilityCss.Proofs.Rule.Border

/-!
# The property of a text value

A text value is a word for an alignment or a transformation, a color, or a font size: a length or a math
function (`Generator.textMeaning`). The generator asks for a color first. No font size is a color
(`Value.not_isColor_of_isLengthOrMath`), but by its letters every word is one
(`Value.isColor_of_isTextWord`). So colors and font sizes are written as what they are, and every word for
an alignment or a transformation as a color (`Generator.text_declares_iff`).
-/

namespace UtilityCss
open Text Value

variable {value : String}

namespace Value

variable {s : List Char}

/-- The name of a math function is not that of a color. -/
theorem not_isColor_of_isMathFunction (h : isMathFunction s) : ¬ isColor s := by
  obtain ⟨name, hname, body, rfl, -, -⟩ := Math.isMathFunction_iff.1 h
  intro hcolor
  rcases isCall_or_of_isColor hcolor with hcall | hchars
  · have hnames : ∀ name ∈ mathFunctions, name.toList ≠ [] ∧ name.toList.head? ≠ some 'r' := by decide
    have hhead := head?_of_isCall hcall
    rw [List.head?_append_of_ne_nil _ (hnames name hname).1] at hhead
    exact (hnames name hname).2 hhead
  · exact absurd (hchars '(' (List.mem_append_right _ List.mem_cons_self)) (by decide)

theorem not_isColor_of_isLengthOrMath (h : isLengthOrMath s) : ¬ isColor s := by
  rw [isLengthOrMath, Bool.or_eq_true] at h
  rcases h with h | h
  · exact not_isColor_of_isLength h
  · exact not_isColor_of_isMathFunction h

/-- Every word for an alignment or a transformation is a color by its letters. -/
theorem isColor_of_isTextWord (h : isTextAlign value ∨ isTextTransform value) :
    isColor value.toList := by
  have hwords : ∀ l : List String, (∀ w ∈ l, isColor w.toList) → l.contains value →
      isColor value.toList := fun l hl hmem => hl value (List.contains_iff_mem.1 hmem)
  rcases h with h | h
  · exact hwords _ (by decide) h
  · exact hwords _ (by decide) h

/-- A text value is a color or a font size. -/
theorem isLengthOrMath_of_not_isColor (h : Domain.text.accepts value) (hcolor : ¬ isColor value.toList) :
    isLengthOrMath value.toList := by
  simp only [Domain.accepts, Bool.or_eq_true] at h
  rcases h with ((h | h) | h) | h
  · exact absurd h hcolor
  · exact h
  · exact absurd (isColor_of_isTextWord (.inl h)) hcolor
  · exact absurd (isColor_of_isTextWord (.inr h)) hcolor

end Value

namespace Generator

/-- The declaration that a text value stands for. -/
def textMeaning (value : String) : String :=
  if isTextAlign value then declaration "text-align" value
  else if isTextTransform value then declaration "text-transform" value
  else if isColor value.toList then declaration "color" value
  else declaration "font-size" (Math.normalize value)

theorem head?_declaration {p : String} (hp : p.toList ≠ []) (value : String) :
    (declaration p value).toList.head? = p.toList.head? := by
  simp only [declaration, String.toList_append, List.append_assoc, List.head?_append_of_ne_nil _ hp]

/-- No font size is written like a color, whatever the values. -/
theorem fontSize_ne_color (v w : String) : declaration "font-size" v ≠ declaration "color" w := by
  intro h
  have hhead := congrArg (fun css : String => css.toList.head?) h
  simp only [head?_declaration (p := "font-size") (by decide),
    head?_declaration (p := "color") (by decide)] at hhead
  exact absurd hhead (by decide)

theorem text_of_isColor (h : isColor value.toList) :
    text.declarations value = declaration "color" value := by
  rw [declarations, textDeclaration, if_pos h]

theorem text_of_isLengthOrMath (h : isLengthOrMath value.toList) :
    text.declarations value = declaration "font-size" (Math.normalize value) ∧
      textMeaning value = declaration "font-size" (Math.normalize value) := by
  have hcolor := not_isColor_of_isLengthOrMath h
  have halign : ¬ isTextAlign value := fun hword => hcolor (isColor_of_isTextWord (.inl hword))
  have htransform : ¬ isTextTransform value := fun hword => hcolor (isColor_of_isTextWord (.inr hword))
  constructor
  · rw [declarations, textDeclaration, if_neg hcolor, if_neg halign, if_neg htransform]
  · rw [textMeaning, if_neg halign, if_neg htransform, if_neg hcolor]

/-- Of the values that are colors by their letters, those that stand for a color are no words for an
alignment or a transformation. -/
theorem textMeaning_eq_color_iff (h : isColor value.toList) :
    textMeaning value = declaration "color" value ↔ ¬ (isTextAlign value ∨ isTextTransform value) := by
  unfold textMeaning
  by_cases halign : isTextAlign value
  · simp [halign, declaration_inj]
  by_cases htransform : isTextTransform value
  · simp [halign, htransform, declaration_inj]
  · simp [halign, htransform, h]

/-- **A text value sets the property that it belongs to exactly if it is no word for an alignment or a
transformation.** Whatever is accepted is written as a font size if it is a length or a math function,
and as a color if it is not; so each of these words is written as a color. -/
theorem text_declares_iff (h : Domain.text.accepts value) :
    (text.declarations value = textMeaning value ↔ ¬ (isTextAlign value ∨ isTextTransform value)) ∧
    (text.declarations value = declaration "font-size" (Math.normalize value) ↔
      isLengthOrMath value.toList) ∧
    (text.declarations value = declaration "color" value ↔ ¬ isLengthOrMath value.toList) := by
  by_cases hcolor : isColor value.toList
  · have hsize : ¬ isLengthOrMath value.toList := fun hsize => not_isColor_of_isLengthOrMath hsize hcolor
    rw [text_of_isColor hcolor, eq_comm, textMeaning_eq_color_iff hcolor]
    exact ⟨Iff.rfl, iff_of_false (fontSize_ne_color _ _).symm hsize, iff_of_true rfl hsize⟩
  · have hsize := isLengthOrMath_of_not_isColor h hcolor
    obtain ⟨hwritten, hmeant⟩ := text_of_isLengthOrMath hsize
    rw [hwritten, hmeant]
    exact ⟨iff_of_true rfl fun hword => hcolor (isColor_of_isTextWord hword), iff_of_true rfl hsize,
      iff_of_false (fontSize_ne_color _ _) (not_not_intro hsize)⟩

/-- A word with a capital is no word for an alignment, a call of a math function is a font size, and one
of channels a color; a word for a transformation is written as a color. -/
theorem text_declares_iff_words :
    (text.declarations "Center" = textMeaning "Center" ∧ text.declarations "Center" = "color: Center;") ∧
    text.declarations "min(1em,_2vw+3px)" = declaration "font-size" (Math.normalize "min(1em,_2vw+3px)") ∧
    text.declarations "rgba(1, 2,3, .5)" = textMeaning "rgba(1, 2,3, .5)" ∧
    (text.declarations "capitalize" ≠ textMeaning "capitalize" ∧
      text.declarations "capitalize" = declaration "color" "capitalize") := by
  have hcapital := text_declares_iff (by decide : Domain.text.accepts "Center")
  have hmath := text_declares_iff (by decide : Domain.text.accepts "min(1em,_2vw+3px)")
  have hcall := text_declares_iff (by decide : Domain.text.accepts "rgba(1, 2,3, .5)")
  have hword := text_declares_iff (by decide : Domain.text.accepts "capitalize")
  exact ⟨⟨hcapital.1.2 (by decide), hcapital.2.2.2 (by decide)⟩, hmath.2.1.2 (by decide),
    hcall.1.2 (by decide), fun hsame => hword.1.1 hsame (by decide), hword.2.2.2 (by decide)⟩

/-- The words for alignments and transformations are accepted and written as colors. -/
theorem text_declarations_ne_meaning :
    (Domain.text.accepts "center" ∧ textMeaning "center" = "text-align: center;" ∧
      text.declarations "center" = "color: center;") ∧
    (Domain.text.accepts "uppercase" ∧ textMeaning "uppercase" = "text-transform: uppercase;" ∧
      text.declarations "uppercase" = "color: uppercase;") := by
  decide +kernel

end Generator

end UtilityCss
