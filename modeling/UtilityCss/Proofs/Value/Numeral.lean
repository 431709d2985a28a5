import UtilityCss.Value.Length
import Mathlib.Data.List.TakeWhile

/-!
# The characters of numerals

A reader takes digits, a point or a sign off the head of a text, so what holds of these and of the
characters that follow holds of every character of the text (`forall_of_isSigned`). In particular a
length opens no parenthesis, and a character that is in none of the units is in no numeral with one
(`not_mem_of_isSigned`). What a reader leaves is the end of the text, so a numeral ends with its unit
(`suffix_of_unsigned?`).
-/

namespace UtilityCss.Value
open Text

variable {s r : List Char} {P : Char → Prop}

theorem forall_of_digits? (hdigit : ∀ c, isDigit c → P c) (h : digits? s = some r)
    (hr : ∀ c ∈ r, P c) : ∀ c ∈ s, P c := by
  unfold digits? at h
  split at h
  · rename_i c s
    split at h
    · rename_i hc
      cases h
      rw [← List.takeWhile_append_dropWhile (p := isDigit) (l := s)]
      intro d hd
      rcases List.mem_cons.1 hd with rfl | hd
      · exact hdigit d hc
      · rcases List.mem_append.1 hd with hd | hd
        · exact hdigit d (List.mem_takeWhile_imp hd)
        · exact hr d hd
    · cases h
  · cases h

theorem forall_of_unsigned? (hdigit : ∀ c, isDigit c → P c) (hpoint : P '.')
    (h : unsigned? s = some r) (hr : ∀ c ∈ r, P c) : ∀ c ∈ s, P c := by
  obtain ⟨t, ht, rfl⟩ := Option.map_eq_some_iff.1 h
  refine forall_of_digits? hdigit ht ?_
  split at hr
  · rename_i f
    cases hf : digits? f with
    | none => rwa [hf] at hr
    | some u =>
        rw [hf] at hr
        exact List.forall_mem_cons.2 ⟨hpoint, forall_of_digits? hdigit hf hr⟩
  · exact hr

theorem forall_of_dropMinus (hminus : P '-') (h : ∀ c ∈ dropMinus s, P c) : ∀ c ∈ s, P c := by
  unfold dropMinus at h
  split at h
  · exact List.forall_mem_cons.2 ⟨hminus, h⟩
  · exact h

/-- What holds of digits, points, signs and units holds of the characters of a numeral with a unit. -/
theorem forall_of_isSigned {units : List String} (hdigit : ∀ c, isDigit c → P c) (hpoint : P '.')
    (hminus : P '-') (hunits : ∀ u ∈ units, ∀ c ∈ u.toList, P c) (h : isSigned units s) :
    ∀ c ∈ s, P c := by
  unfold isSigned at h
  split at h
  · rename_i r hr
    obtain ⟨u, hmem, hunit⟩ := List.any_eq_true.1 h
    have hr' : u.toList = r := by simpa using hunit
    exact forall_of_dropMinus hminus (forall_of_unsigned? hdigit hpoint hr (hr' ▸ hunits u hmem))
  · cases h

/-- A character that is neither a digit nor in a sign, a point or a unit is in no numeral. -/
theorem not_mem_of_isSigned {units : List String} {c : Char} (hdigit : isDigit c = false)
    (hsign : c ≠ '.' ∧ c ≠ '-') (hunits : ∀ u ∈ units, c ∉ u.toList) (h : isSigned units s) :
    c ∉ s := by
  have hdigits : ∀ d, isDigit d → d ≠ c := by
    rintro d hd rfl
    rw [hdigit] at hd
    cases hd
  have hall : ∀ d ∈ s, d ≠ c := forall_of_isSigned hdigits hsign.1.symm hsign.2.symm
    (fun u hu d hd e => hunits u hu (e ▸ hd)) h
  exact fun hmem => hall c hmem rfl

theorem not_mem_of_isLength (h : isLength s) : '(' ∉ s :=
  not_mem_of_isSigned (by decide) (by decide) (by decide) h

/-! ### Numerals without a unit -/

theorem digits?_eq_some_nil_iff : digits? s = some [] ↔ s ≠ [] ∧ ∀ c ∈ s, isDigit c := by
  cases s with
  | nil => simp [digits?]
  | cons c s =>
      by_cases hc : isDigit c
      · simp [digits?, hc]
      · simp [digits?, hc]

theorem forall_of_isInteger (hdigit : ∀ c, isDigit c → P c) (hminus : P '-') (h : isInteger s) :
    ∀ c ∈ s, P c :=
  forall_of_dropMinus hminus (forall_of_digits? hdigit (of_decide_eq_true h) nofun)

/-- A fraction is a point and digits. -/
theorem exists_of_isFraction (h : isFraction s) : ∃ f, s = '.' :: f ∧ f ≠ [] ∧ ∀ c ∈ f, isDigit c := by
  unfold isFraction at h
  split at h
  · exact ⟨_, rfl, digits?_eq_some_nil_iff.1 (of_decide_eq_true h)⟩
  · cases h

theorem forall_of_isFraction (hdigit : ∀ c, isDigit c → P c) (hpoint : P '.') (h : isFraction s) :
    ∀ c ∈ s, P c := by
  obtain ⟨f, rfl, -, hf⟩ := exists_of_isFraction h
  exact List.forall_mem_cons.2 ⟨hpoint, fun c hc => hdigit c (hf c hc)⟩

/-- A decimal from 0 to 1 is one of these two, or one with a fraction, which is zero behind `1`. -/
theorem isUnitInterval_cases (h : isUnitInterval s) : s = ['0'] ∨ s = ['1'] ∨
    (∃ f, s = '0' :: '.' :: f ∧ f ≠ [] ∧ ∀ c ∈ f, isDigit c) ∨
      ∃ f, s = '1' :: '.' :: f ∧ f ≠ [] ∧ ∀ c ∈ f, c = '0' := by
  unfold isUnitInterval at h
  split at h
  · exact .inl rfl
  · exact .inr (.inl rfl)
  · obtain ⟨f, rfl, hf⟩ := exists_of_isFraction h
    exact .inr (.inr (.inl ⟨f, rfl, hf⟩))
  · rename_i c f
    refine .inr (.inr (.inr ⟨c :: f, rfl, List.cons_ne_nil c f, ?_⟩))
    simpa only [List.all_eq_true, decide_eq_true_iff] using h
  · cases h

theorem forall_of_isUnitInterval (hdigit : ∀ c, isDigit c → P c) (hpoint : P '.')
    (h : isUnitInterval s) : ∀ c ∈ s, P c := by
  have hzero : P '0' := hdigit '0' (by decide)
  have hone : P '1' := hdigit '1' (by decide)
  rcases isUnitInterval_cases h with rfl | rfl | ⟨f, rfl, -, hf⟩ | ⟨f, rfl, -, hf⟩
  · exact List.forall_mem_singleton.2 hzero
  · exact List.forall_mem_singleton.2 hone
  · exact List.forall_mem_cons.2 ⟨hzero, List.forall_mem_cons.2 ⟨hpoint,
      fun c hc => hdigit c (hf c hc)⟩⟩
  · exact List.forall_mem_cons.2 ⟨hone, List.forall_mem_cons.2 ⟨hpoint, fun c hc => hf c hc ▸ hzero⟩⟩

/-! ### The ends of numerals -/

theorem isSigned_iff {units : List String} :
    isSigned units s ↔ ∃ u ∈ units, unsigned? (dropMinus s) = some u.toList := by
  unfold isSigned
  cases unsigned? (dropMinus s) with
  | none => simp
  | some r =>
      simp only [List.any_eq_true, decide_eq_true_iff, Option.some.injEq]
      exact exists_congr fun u => and_congr_right fun _ => eq_comm

theorem isSigned_mono {units units' : List String} (hsub : units ⊆ units') (h : isSigned units s) :
    isSigned units' s := by
  obtain ⟨u, hu, hread⟩ := isSigned_iff.1 h
  exact isSigned_iff.2 ⟨u, hsub hu, hread⟩

theorem suffix_of_digits? (h : digits? s = some r) : r <:+ s := by
  unfold digits? at h
  split at h
  · rename_i c s
    split at h
    · cases h
      exact (List.dropWhile_suffix isDigit).trans (List.suffix_cons c s)
    · cases h
  · cases h

theorem suffix_of_unsigned? (h : unsigned? s = some r) : r <:+ s := by
  obtain ⟨t, ht, rfl⟩ := Option.map_eq_some_iff.1 h
  refine List.IsSuffix.trans ?_ (suffix_of_digits? ht)
  split
  · rename_i f
    cases hf : digits? f with
    | none => exact List.suffix_refl _
    | some u => exact (suffix_of_digits? hf).trans (List.suffix_cons '.' f)
  · exact List.suffix_refl _

theorem suffix_dropMinus (s : List Char) : dropMinus s <:+ s := by
  unfold dropMinus
  split
  · exact List.suffix_cons '-' _
  · exact List.suffix_refl _

/-- A numeral begins with a digit or a sign. -/
theorem head?_of_isSigned {units : List String} (h : isSigned units s) :
    ∃ c ∈ s.head?, c = '-' ∨ isDigit c := by
  obtain ⟨u, -, hread⟩ := isSigned_iff.1 h
  obtain ⟨t, ht, -⟩ := Option.map_eq_some_iff.1 hread
  cases s with
  | nil => cases ht
  | cons c s =>
      refine ⟨c, rfl, ?_⟩
      by_cases hc : c = '-'
      · exact .inl hc
      · have hplain : dropMinus (c :: s) = c :: s := by
          unfold dropMinus
          split
          · rename_i heq
            exact absurd (List.cons.inj heq).1 hc
          · rfl
        rw [hplain, digits?] at ht
        split at ht
        · rename_i hdigit
          exact .inr hdigit
        · cases ht

end UtilityCss.Value
