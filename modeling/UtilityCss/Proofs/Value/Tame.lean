import UtilityCss.Proofs.Value.Alphabet

/-!
# Values without marks

A mark is a character that ends a property or a declaration, opens or closes a rule, or begins a tag.
None of the characters of which values are made is one (`alphabet_not_isMark`). Math functions are the
exception, since what stands in their calls is not looked at: a value that a rule accepts is one of them
or has no marks (`Domain.isTame_or_isMathFunction`).
-/

namespace UtilityCss.Value
open Text

/-- The characters that have a meaning of their own around values. -/
def marks : List Char := [':', ';', '\x7b', '\x7d', '<']

def isMark (c : Char) : Bool := marks.contains c

/-- A text without marks. -/
def IsTame (s : List Char) : Prop := ∀ c ∈ s, isMark c = false

instance (s : List Char) : Decidable (IsTame s) := List.decidableBAll _ s

variable {s : List Char} {c : Char} {d : Domain} {v : String}

/-- What holds of all marks holds of a mark. -/
theorem of_isMark {p : Char → Bool} (hp : marks.all p) (h : isMark c) : p c :=
  List.all_eq_true.1 hp c (by simpa [isMark] using h)

/-- No mark is a character of a class that has none of them. -/
theorem isMark_of_class {p : Char → Bool} (hp : marks.all fun m => !p m) (h : p c) :
    isMark c = false := by
  by_contra hmark
  have hnot := of_isMark hp (by simpa using hmark)
  rw [h] at hnot
  cases hnot

theorem IsTame.not_mem (h : IsTame s) (hc : isMark c) : c ∉ s := by
  intro hmem
  rw [h c hmem] at hc
  cases hc

theorem isTame_of_all {p : Char → Bool} (hp : marks.all fun m => !p m) (h : s.all p) : IsTame s :=
  fun c hc => isMark_of_class hp (List.all_eq_true.1 h c hc)

theorem isTame_of_contains {l : List String} (hl : ∀ u ∈ l, IsTame u.toList)
    (h : l.contains v) : IsTame v.toList :=
  hl v (by simpa using h)

/-! ### Domains -/

/-- No character of which values are made is a mark. -/
theorem alphabet_not_isMark (d : Domain) : d.Alphabet fun c => isMark c = false where
  digit _    := isMark_of_class (p := isDigit) (by decide)
  blank _ _  := isMark_of_class (p := isBlank) (by decide)
  letter _   := isMark_of_class (p := Char.isAlphanum) (by decide)
  sign       := (by decide : IsTame signs)

theorem isTame_of_accepts (hd : d ∈ numericDomains) (h : d.accepts v) : IsTame v.toList :=
  (alphabet_not_isMark d).forall_of_accepts hd h

theorem isTame_of_isLength (h : isLength v.toList) : IsTame v.toList :=
  isTame_of_accepts (d := .length) (by decide) h

theorem isTame_of_isColor (h : isColor s) : IsTame s := by
  have htame := isTame_of_accepts (d := .color) (v := .ofList s) (by decide)
    (by rwa [Domain.accepts, String.toList_ofList])
  rwa [String.toList_ofList] at htame

theorem isTame_of_folded (h : IsTame (folded v)) : IsTame v.toList := by
  intro c hc
  by_contra hmark
  have hmark : isMark c := by simpa using hmark
  -- a mark is neither trimmed nor lowered
  have hblank : isBlank c = false := by
    simpa using of_isMark (p := fun m => !isBlank m) (by decide) hmark
  have hlower : lowerChar c = c := by
    simpa using of_isMark (p := fun m => lowerChar m == m) (by decide) hmark
  have hfolded : c ∈ folded v := by
    rw [← hlower]
    exact List.mem_map_of_mem (mem_trim hblank hc)
  rw [h c hfolded] at hmark
  cases hmark

/-- Parts between underscores make up a value. -/
theorem isTame_of_split (h : ∀ part ∈ split '_' v, IsTame part.toList) : IsTame v.toList :=
  forall_of_split (by decide) h

theorem isTame_of_isBorderPart (h : isBorderPart v) : IsTame v.toList := by
  simp only [isBorderPart, Bool.or_eq_true] at h
  rcases h with (h | h) | h
  · exact isTame_of_isLength h
  · exact isTame_of_contains (by decide) h
  · exact isTame_of_isColor h

theorem isTame_or_of_isLengthOrMath (h : isLengthOrMath v.toList) :
    IsTame v.toList ∨ isMathFunction v.toList := by
  rw [isLengthOrMath, Bool.or_eq_true] at h
  exact h.imp_left isTame_of_isLength

/-- A value that is accepted has no marks, if it is not a math function. -/
theorem Domain.isTame_or_isMathFunction {d : Domain} (hd : d ≠ .any) {v : String}
    (h : d.accepts v) : IsTame v.toList ∨ isMathFunction v.toList := by
  cases d with
  | any => exact absurd rfl hd
  | mathFunction => exact .inr h
  | lengthOrMath => exact isTame_or_of_isLengthOrMath h
  | text =>
      simp only [accepts, Bool.or_eq_true] at h
      rcases h with ((h | h) | h) | h
      · exact .inl (isTame_of_isColor h)
      · exact isTame_or_of_isLengthOrMath h
      · exact .inl (isTame_of_contains (by decide) h)
      · exact .inl (isTame_of_contains (by decide) h)
  | length | color | lineHeight | opacity | zIndex | flex =>
      exact .inl (isTame_of_accepts (by decide) h)
  | border =>
      refine .inl (isTame_of_folded ?_)
      have hparts := isTame_of_split fun part hpart =>
        isTame_of_isBorderPart (List.all_eq_true.1 h part hpart)
      rwa [String.toList_ofList] at hparts
  | background =>
      refine .inl (isTame_of_folded ?_)
      simp only [accepts, Bool.or_eq_true, decide_eq_true_eq] at h
      rcases h with h | h
      · rw [h]
        decide
      · exact isTame_of_isColor h
  | fontWeight | textAlign | textTransform | display | justifyContent | alignItems | position
  | float | borderStyle => exact .inl (isTame_of_contains (by decide) h)

end UtilityCss.Value
