import UtilityCss.Proofs.Text
import UtilityCss.Proofs.Value.Color
import UtilityCss.Value.Domain

/-!
# The characters of a domain

A value of a numeric domain is made of digits, letters and a few signs, and a color of blanks besides
(`Domain.Alphabet`). What holds of all of these holds of every character of a value that is accepted
(`Domain.Alphabet.forall_of_accepts`).
-/

namespace UtilityCss.Value
open Text

variable {s : List Char} {P : Char → Prop} {d : Domain} {v : String}

/-- The domains whose values are read as numbers or colors. -/
def numericDomains : List Domain := [.length, .zIndex, .opacity, .flex, .lineHeight, .color]

/-- The characters of values that are neither digits, letters nor blanks. -/
def signs : List Char := ['-', '.', '_', '%', '#', '(', ',', ')']

/-- Something holds of all characters of which values are made. -/
structure Domain.Alphabet (d : Domain) (P : Char → Prop) : Prop where
  digit  : ∀ c, isDigit c → P c
  blank  : d = .color → ∀ c, isBlank c → P c
  letter : ∀ c, c.isAlphanum → P c
  sign   : ∀ c ∈ signs, P c

/-- The words that may stand for a part of a flexible length. -/
def flexWords : List String := ["auto", "content"]

/-- A part of a flexible length is a numeral with a unit or a word. -/
theorem forall_of_isFlexPart (hdigit : ∀ c, isDigit c → P c) (hpoint : P '.')
    (hwords : ∀ w ∈ lengthUnits ++ flexWords, ∀ c ∈ w.toList, P c) (h : isFlexPart s) :
    ∀ c ∈ s, P c := by
  unfold isFlexPart at h
  split at h
  · rename_i r hr
    obtain ⟨u, hmem, hunit⟩ := List.any_eq_true.1 h
    have hr' : u.toList = r := of_decide_eq_true hunit
    exact forall_of_unsigned? hdigit hpoint hr (hr' ▸ hwords u (List.mem_append_left _ hmem))
  · simp only [Bool.or_eq_true, decide_eq_true_eq] at h
    rcases h with rfl | rfl
    · exact hwords "auto" (by decide)
    · exact hwords "content" (by decide)

namespace Domain.Alphabet

/-- A word is letters and signs. -/
theorem forall_of_word (h : d.Alphabet P) {words : List String} (hv : v ∈ words)
    (hwords : words.all fun w => w.toList.all fun c => c.isAlphanum || signs.contains c) :
    ∀ c ∈ v.toList, P c := by
  intro c hc
  have hkind := List.all_eq_true.1 (List.all_eq_true.1 hwords v hv) c hc
  rw [Bool.or_eq_true, List.contains_iff_mem] at hkind
  exact hkind.elim (h.letter c) (h.sign c)

/-- What holds of the characters of a numeric domain holds of those of its values. -/
theorem forall_of_accepts (h : d.Alphabet P) (hd : d ∈ numericDomains) (hv : d.accepts v) :
    ∀ c ∈ v.toList, P c := by
  have hminus : P '-' := h.sign '-' (by decide)
  have hpoint : P '.' := h.sign '.' (by decide)
  cases d with
  | length =>
      exact forall_of_isSigned h.digit hpoint hminus
        (fun u hu => h.forall_of_word hu (by decide)) hv
  | zIndex => exact forall_of_isInteger h.digit hminus hv
  | opacity => exact forall_of_isUnitInterval h.digit hpoint hv
  | lineHeight =>
      simp only [accepts, Bool.or_eq_true, decide_eq_true_eq] at hv
      rcases hv with hv | rfl
      · exact forall_of_isInteger h.digit hminus hv
      · exact h.forall_of_word (List.mem_singleton_self _) (by decide)
  | flex =>
      simp only [accepts, Bool.or_eq_true, Bool.and_eq_true] at hv
      rcases hv with hv | ⟨-, hv⟩
      · exact h.forall_of_word (List.contains_iff_mem.1 hv) (by decide)
      · refine forall_of_split (h.sign '_' (by decide)) fun part hpart => ?_
        exact forall_of_isFlexPart h.digit hpoint (fun w hw => h.forall_of_word hw (by decide))
          (List.all_eq_true.1 hv part hpart)
  | color =>
      have hsigns : "#(,.)".toList ⊆ signs := by decide
      exact forall_of_isColor h.digit (h.blank rfl) h.letter (fun c hc => h.sign c (hsigns hc)) hv
  | mathFunction | lengthOrMath | fontWeight | textAlign | textTransform | text | display
  | justifyContent | alignItems | position | float | borderStyle | border | background | any =>
      exact absurd hd (by decide)

end Domain.Alphabet

end UtilityCss.Value
