import UtilityCss.Proofs.Text.Case
import UtilityCss.Proofs.Value.Numeral
import UtilityCss.Value.Color
import Mathlib.Data.List.TakeWhile

/-!
# Colors in any case of letters

A call of channels is digits, blanks and the signs of a call (`forall_of_isRgb`, `forall_of_isRgba`), and
every other color is letters and digits behind a `#` at most (`forall_of_isColor`). So no color has blanks
at its ends (`trim_of_isColor`). Hexadecimal digits and names are read in any case of letters, but the
name of a call is read in lower case alone. So a text that is a color once it is trimmed and lowered is
one as it is exactly if nothing is trimmed, no letter of a name comes from the Kelvin sign and no letter
of a call is lowered (`isColor_iff`).
-/

namespace UtilityCss.Value
open Text

variable {s r : List Char} {c : Char} {P : Char → Prop}

/-! ### The characters of a call -/

theorem forall_of_dropWhile {p : Char → Bool} (hp : ∀ c, p c → P c)
    (h : ∀ c ∈ s.dropWhile p, P c) : ∀ c ∈ s, P c := by
  intro c hc
  rw [← List.takeWhile_append_dropWhile (p := p) (l := s)] at hc
  rcases List.mem_append.1 hc with hc | hc
  · exact hp c (List.mem_takeWhile_imp hc)
  · exact h c hc

/-- A channel is digits with blanks around them. -/
theorem exists_of_channel? (h : channel? s = some r) : ∃ digits t,
    s.dropWhile isBlank = digits ++ t ∧ (∀ c ∈ digits, isDigit c) ∧ r = t.dropWhile isBlank := by
  unfold channel? at h
  simp only at h
  split at h
  · refine ⟨(s.dropWhile isBlank).takeWhile isDigit, _, ?_, fun c hc => List.mem_takeWhile_imp hc,
      (Option.some.inj h).symm⟩
    exact (List.prefix_iff_eq_append.1 (List.takeWhile_prefix isDigit)).symm
  · cases h

theorem forall_of_channel? (hdigit : ∀ c, isDigit c → P c) (hblank : ∀ c, isBlank c → P c)
    (h : channel? s = some r) (hr : ∀ c ∈ r, P c) : ∀ c ∈ s, P c := by
  obtain ⟨digits, t, hsplit, hdigits, rfl⟩ := exists_of_channel? h
  refine forall_of_dropWhile hblank ?_
  rw [hsplit]
  exact List.forall_mem_append.2
    ⟨fun c hc => hdigit c (hdigits c hc), forall_of_dropWhile hblank hr⟩

theorem suffix_of_channel? (h : channel? s = some r) : r <:+ s := by
  obtain ⟨digits, t, hsplit, -, rfl⟩ := exists_of_channel? h
  have ht : t <:+ s := (List.suffix_append digits t).trans (hsplit ▸ List.dropWhile_suffix isBlank)
  exact (List.dropWhile_suffix isBlank).trans ht

theorem forall_of_channels? {n : Nat} (hdigit : ∀ c, isDigit c → P c) (hblank : ∀ c, isBlank c → P c)
    (hcomma : P ',') (h : channels? n s = some r) (hr : ∀ c ∈ r, P c) : ∀ c ∈ s, P c := by
  induction n generalizing s with
  | zero =>
      cases h
      exact hr
  | succ n ih =>
      obtain ⟨t, ht, h⟩ := Option.bind_eq_some_iff.1 h
      obtain ⟨u, hu, h⟩ := Option.bind_eq_some_iff.1 h
      have htail : ∀ c ∈ t, P c := by
        rw [dropPrefix?_eq_some_iff.1 hu]
        exact List.forall_mem_cons.2 ⟨hcomma, ih h⟩
      exact forall_of_channel? hdigit hblank ht htail

theorem suffix_of_channels? {n : Nat} (h : channels? n s = some r) : r <:+ s := by
  induction n generalizing s with
  | zero =>
      cases h
      exact List.suffix_refl _
  | succ n ih =>
      obtain ⟨t, ht, h⟩ := Option.bind_eq_some_iff.1 h
      obtain ⟨u, hu, h⟩ := Option.bind_eq_some_iff.1 h
      have hcomma : u <:+ t := ⟨[','], (dropPrefix?_eq_some_iff.1 hu).symm⟩
      exact ((ih h).trans hcomma).trans (suffix_of_channel? ht)

/-- Three channels between a name with a parenthesis and another parenthesis. -/
theorem isRgb_iff : isRgb s ↔ ∃ t u, s = "rgb(".toList ++ t ∧ channels? 2 t = some u ∧
    channel? u = some [')'] := by
  rw [isRgb, decide_eq_true_iff]
  constructor
  · intro h
    obtain ⟨u, hu, hlast⟩ := Option.bind_eq_some_iff.1 h
    obtain ⟨t, ht, hu⟩ := Option.bind_eq_some_iff.1 hu
    exact ⟨t, u, dropPrefix?_eq_some_iff.1 ht, hu, hlast⟩
  · rintro ⟨t, u, rfl, hu, hlast⟩
    rw [dropPrefix?_append, Option.bind_some, hu, Option.bind_some, hlast]

/-- Three channels and an opacity between a name with a parenthesis and another parenthesis. -/
theorem isRgba_iff : isRgba s ↔ ∃ t u a, s = "rgba(".toList ++ t ∧ channels? 3 t = some u ∧
    u.dropWhile isBlank = a ++ [')'] ∧ isAlpha a := by
  unfold isRgba
  constructor
  · intro h
    split at h
    · rename_i u hu
      obtain ⟨t, ht, hu⟩ := Option.bind_eq_some_iff.1 hu
      cases ha : dropSuffix? [')'] (u.dropWhile isBlank) with
      | none =>
          rw [ha] at h
          cases h
      | some a =>
          rw [ha] at h
          exact ⟨t, u, a, dropPrefix?_eq_some_iff.1 ht, hu, dropSuffix?_eq_some_iff.1 ha, h⟩
    · cases h
  · rintro ⟨t, u, a, rfl, hu, ha, halpha⟩
    rw [dropPrefix?_append, Option.bind_some, hu]
    simp only [dropSuffix?_eq_some_iff.2 ha, Option.map_some, Option.getD_some, halpha]

theorem forall_of_isRgb (hdigit : ∀ c, isDigit c → P c) (hblank : ∀ c, isBlank c → P c)
    (hsigns : ∀ c ∈ "rgb(,)".toList, P c) (h : isRgb s) : ∀ c ∈ s, P c := by
  obtain ⟨t, u, rfl, hu, hlast⟩ := isRgb_iff.1 h
  have hend : ∀ c ∈ [')'], P c := fun c hc => hsigns c ((by decide : [')'] ⊆ "rgb(,)".toList) hc)
  have hname : ∀ c ∈ "rgb(".toList, P c := fun c hc =>
    hsigns c ((by decide : "rgb(".toList ⊆ "rgb(,)".toList) hc)
  refine List.forall_mem_append.2 ⟨hname, forall_of_channels? hdigit hblank ?_ hu ?_⟩
  · exact hsigns ',' (by decide)
  · exact forall_of_channel? hdigit hblank hlast hend

theorem forall_of_isAlpha (hdigit : ∀ c, isDigit c → P c) (hpoint : P '.') (h : isAlpha s) :
    ∀ c ∈ s, P c := by
  have hzero : P '0' := hdigit '0' (by decide)
  have hone : P '1' := hdigit '1' (by decide)
  unfold isAlpha at h
  split at h
  · exact List.forall_mem_singleton.2 hzero
  · exact List.forall_mem_singleton.2 hone
  · exact List.forall_mem_cons.2 ⟨hzero, forall_of_isFraction hdigit hpoint h⟩
  · exact forall_of_isFraction hdigit hpoint h

theorem forall_of_isRgba (hdigit : ∀ c, isDigit c → P c) (hblank : ∀ c, isBlank c → P c)
    (hsigns : ∀ c ∈ "rgba(,.)".toList, P c) (h : isRgba s) : ∀ c ∈ s, P c := by
  obtain ⟨t, u, a, rfl, hu, ha, halpha⟩ := isRgba_iff.1 h
  have hend : ∀ c ∈ [')'], P c := fun c hc => hsigns c ((by decide : [')'] ⊆ "rgba(,.)".toList) hc)
  have hname : ∀ c ∈ "rgba(".toList, P c := fun c hc =>
    hsigns c ((by decide : "rgba(".toList ⊆ "rgba(,.)".toList) hc)
  refine List.forall_mem_append.2 ⟨hname, forall_of_channels? hdigit hblank ?_ hu ?_⟩
  · exact hsigns ',' (by decide)
  · refine forall_of_dropWhile hblank ?_
    rw [ha]
    exact List.forall_mem_append.2
      ⟨forall_of_isAlpha hdigit (hsigns '.' (by decide)) halpha, hend⟩

theorem isHexColor_iff : isHexColor s ↔ ∃ d, s = '#' :: d ∧ (d.length = 3 ∨ d.length = 6) ∧
    ∀ c ∈ d, (hexValue? c).isSome := by
  unfold isHexColor
  constructor
  · intro h
    split at h
    · rename_i d
      simp only [Bool.and_eq_true, Bool.or_eq_true, decide_eq_true_iff, List.all_eq_true] at h
      exact ⟨d, rfl, h⟩
    · cases h
  · rintro ⟨d, rfl, h⟩
    simpa only [Bool.and_eq_true, Bool.or_eq_true, decide_eq_true_iff, List.all_eq_true] using h

theorem isColorName_iff : isColorName s ↔ s ≠ [] ∧ ∀ c ∈ s, c.isAlpha := by
  simp [isColorName]

theorem isColor_cases (h : isColor s) : isHexColor s ∨ isRgb s ∨ isRgba s ∨ isColorName s := by
  simpa only [isColor, Bool.or_eq_true, or_assoc] using h

/-! ### The ends of a color -/

theorem isAlphanum_of_isAlpha (h : c.isAlpha) : c.isAlphanum :=
  (Bool.or_eq_true c.isAlpha c.isDigit).mpr (.inl h)

theorem isAlphanum_of_hexValue? (h : (hexValue? c).isSome) : c.isAlphanum := by
  unfold hexValue? at h
  split at h
  · rename_i hdigit
    exact (Bool.or_eq_true c.isAlpha c.isDigit).mpr (.inr hdigit)
  split at h
  · rename_i hlower
    have hz : c ≤ 'z' := Char.le_trans hlower.2 (by decide : 'f' ≤ 'z')
    have halpha : c.isLower :=
      (Bool.and_eq_true _ _).mpr ⟨decide_eq_true hlower.1, decide_eq_true hz⟩
    exact isAlphanum_of_isAlpha ((Bool.or_eq_true c.isUpper c.isLower).mpr (.inr halpha))
  split at h
  · rename_i hupper
    have hz : c ≤ 'Z' := Char.le_trans hupper.2 (by decide : 'F' ≤ 'Z')
    have halpha : c.isUpper := decide_eq_true ⟨hupper.1, hz⟩
    exact isAlphanum_of_isAlpha ((Bool.or_eq_true c.isUpper c.isLower).mpr (.inl halpha))
  · cases h

/-- A color begins with `#` or a letter. -/
theorem head?_of_isColor (h : isColor s) : ∀ c ∈ s.head?, c = '#' ∨ c.isAlpha := by
  have hletter : ∀ t : List Char, ∀ c ∈ ('r' :: t).head?, c = '#' ∨ c.isAlpha := by
    intro t c hc
    rw [← Option.some.inj hc]
    exact .inr (by decide)
  rcases isColor_cases h with h | h | h | h
  · obtain ⟨d, rfl, -⟩ := isHexColor_iff.1 h
    exact fun c hc => .inl (Option.some.inj hc).symm
  · obtain ⟨t, u, rfl, -⟩ := isRgb_iff.1 h
    exact hletter _
  · obtain ⟨t, u, a, rfl, -⟩ := isRgba_iff.1 h
    exact hletter _
  · exact fun c hc => .inr ((isColorName_iff.1 h).2 c (List.mem_of_mem_head? hc))

/-- A call begins with its name. -/
theorem head?_of_isCall (h : isRgb s ∨ isRgba s) : s.head? = some 'r' := by
  rcases h with h | h
  · obtain ⟨t, u, rfl, -⟩ := isRgb_iff.1 h
    rfl
  · obtain ⟨t, u, a, rfl, -⟩ := isRgba_iff.1 h
    rfl

/-- A call ends with its parenthesis. -/
theorem suffix_of_isCall (h : isRgb s ∨ isRgba s) : [')'] <:+ s := by
  rcases h with h | h
  · obtain ⟨t, u, rfl, hu, hlast⟩ := isRgb_iff.1 h
    have ht := (suffix_of_channel? hlast).trans (suffix_of_channels? hu)
    exact ht.trans (List.suffix_append _ t)
  · obtain ⟨t, u, a, rfl, hu, ha, -⟩ := isRgba_iff.1 h
    have hu' : [')'] <:+ u :=
      (ha ▸ List.suffix_append a [')']).trans (List.dropWhile_suffix isBlank)
    exact (hu'.trans (suffix_of_channels? hu)).trans (List.suffix_append _ t)

/-- A color ends with a letter, a digit or a parenthesis. -/
theorem getLast?_of_isColor (h : isColor s) : ∀ c ∈ s.getLast?, c = ')' ∨ c.isAlphanum := by
  have hcall : [')'] <:+ s → ∀ c ∈ s.getLast?, c = ')' ∨ c.isAlphanum := by
    rintro ⟨t, rfl⟩ c hc
    rw [List.getLast?_concat] at hc
    exact .inl (Option.some.inj hc).symm
  rcases isColor_cases h with h | h | h | h
  · obtain ⟨d, rfl, hlength, hd⟩ := isHexColor_iff.1 h
    intro c hc
    cases d with
    | nil => simp at hlength
    | cons c' d =>
        rw [List.getLast?_cons_cons] at hc
        exact .inr (isAlphanum_of_hexValue? (hd c (List.mem_of_mem_getLast? hc)))
  · exact hcall (suffix_of_isCall (.inl h))
  · exact hcall (suffix_of_isCall (.inr h))
  · intro c hc
    exact .inr (isAlphanum_of_isAlpha ((isColorName_iff.1 h).2 c (List.mem_of_mem_getLast? hc)))

theorem trim_of_isColor (h : isColor s) : trim s = s := by
  refine trim_eq_self (fun c hc => ?_) (fun c hc => ?_)
  · rcases head?_of_isColor h c hc with rfl | hc
    · decide
    · exact not_isBlank_of_isAlphanum (isAlphanum_of_isAlpha hc)
  · rcases getLast?_of_isColor h c hc with rfl | hc
    · decide
    · exact not_isBlank_of_isAlphanum hc

/-! ### Letter case -/

/-- A text from which nothing is trimmed, and that holds no Kelvin sign and no capital in a call. -/
structure IsPlainColor (s : List Char) : Prop where
  trim_eq    : trim s = s
  not_kelvin : kelvin ∉ s
  lower_eq   : '(' ∈ s → lower s = s

/-- No character of a call is changed by lowering. -/
theorem lowerChar_of_isCall (h : isRgb s ∨ isRgba s) : ∀ c ∈ s, lowerChar c = c := by
  have hdigit : ∀ c, isDigit c → lowerChar c = c := fun c => lowerChar_of_class (by decide)
  have hblank : ∀ c, isBlank c → lowerChar c = c := fun c => lowerChar_of_class (by decide)
  have hsigns : ∀ l : List Char, (l.all fun c => lowerChar c == c) → ∀ c ∈ l, lowerChar c = c :=
    fun l hl c hc => by simpa using List.all_eq_true.1 hl c hc
  rcases h with h | h
  · exact forall_of_isRgb hdigit hblank (hsigns _ (by decide)) h
  · exact forall_of_isRgba hdigit hblank (hsigns _ (by decide)) h

/-- The characters of another color are `#`, letters and digits. -/
theorem isCall_or_of_isColor (h : isColor s) :
    (isRgb s ∨ isRgba s) ∨ ∀ c ∈ s, c = '#' ∨ c.isAlphanum := by
  rcases isColor_cases h with h | h | h | h
  · obtain ⟨d, rfl, -, hd⟩ := isHexColor_iff.1 h
    refine .inr (List.forall_mem_cons.2 ⟨.inl rfl, fun c hc => .inr ?_⟩)
    exact isAlphanum_of_hexValue? (hd c hc)
  · exact .inl (.inl h)
  · exact .inl (.inr h)
  · exact .inr fun c hc => .inr (isAlphanum_of_isAlpha ((isColorName_iff.1 h).2 c hc))

theorem forall_of_isColor (hdigit : ∀ c, isDigit c → P c) (hblank : ∀ c, isBlank c → P c)
    (hletter : ∀ c, c.isAlphanum → P c) (hsigns : ∀ c ∈ "#(,.)".toList, P c) (h : isColor s) :
    ∀ c ∈ s, P c := by
  have hcall : ∀ c ∈ "rgba(,.)".toList, P c := by
    intro c hc
    have hall : "rgba(,.)".toList.all fun c => c.isAlphanum || "#(,.)".toList.contains c := by decide
    have hkind := List.all_eq_true.1 hall c hc
    rw [Bool.or_eq_true, List.contains_iff_mem] at hkind
    rcases hkind with hc | hc
    · exact hletter c hc
    · exact hsigns c hc
  rcases isCall_or_of_isColor h with (h | h) | h
  · refine forall_of_isRgb hdigit hblank (fun c hc => hcall c ?_) h
    exact (by decide : "rgb(,)".toList ⊆ "rgba(,.)".toList) hc
  · exact forall_of_isRgba hdigit hblank hcall h
  · intro c hc
    rcases h c hc with rfl | hc
    · exact hsigns '#' (by decide)
    · exact hletter c hc

/-- A character that is none of digits, blanks, letters and the signs of colors is in no color. -/
theorem not_mem_of_isColor (hc : (isDigit c || isBlank c || c.isAlphanum) = false)
    (hsign : c ∉ "#(,.)".toList) (h : isColor s) : c ∉ s := by
  simp only [Bool.or_eq_false_iff] at hc
  have hne : ∀ {p : Char → Bool}, p c = false → ∀ d, p d → d ≠ c := by
    rintro p hp d hd rfl
    rw [hp] at hd
    cases hd
  have hall : ∀ d ∈ s, d ≠ c := forall_of_isColor (hne hc.1.1) (hne hc.1.2) (hne hc.2)
    (fun d hd e => hsign (e ▸ hd)) h
  exact fun hmem => hall c hmem rfl

theorem isPlainColor_of_isColor (h : isColor s) : IsPlainColor s := by
  refine ⟨trim_of_isColor h, not_mem_of_isColor (by decide) (by decide) h, fun hopen => ?_⟩
  rcases isCall_or_of_isColor h with hcall | hchars
  · exact lower_eq_self (lowerChar_of_isCall hcall)
  · exact absurd (hchars '(' hopen) (by decide)

theorem isColor_iff_of_not_mem (h : '(' ∉ s) : isColor s ↔ isHexColor s ∨ isColorName s := by
  have hrgb : isRgb s = false := by
    by_contra hcall
    obtain ⟨t, u, rfl, -⟩ := isRgb_iff.1 (by simpa using hcall)
    exact h (List.mem_append_left t (by decide))
  have hrgba : isRgba s = false := by
    by_contra hcall
    obtain ⟨t, u, a, rfl, -⟩ := isRgba_iff.1 (by simpa using hcall)
    exact h (List.mem_append_left t (by decide))
  simp [isColor, hrgb, hrgba]

theorem isHexColor_lower : isHexColor (lower s) ↔ isHexColor s := by
  have hhash : ∀ c, lowerChar c = '#' ↔ c = '#' := fun c => lowerChar_eq_iff (by decide)
  cases s with
  | nil => exact Iff.rfl
  | cons c s =>
      rw [lower, List.map_cons, isHexColor_iff, isHexColor_iff]
      simp [hhash, isSome_hexValue?_lowerChar]

theorem isColorName_lower (h : kelvin ∉ s) : isColorName (lower s) ↔ isColorName s := by
  have hsame : ∀ c ∈ s, (lowerChar c).isAlpha = c.isAlpha := by
    intro c hc
    have hne : c ≠ kelvin := fun e => h (e ▸ hc)
    rw [isAlpha_lowerChar, decide_eq_false hne, Bool.or_false]
  rw [isColorName_iff, isColorName_iff, lower, List.forall_mem_map]
  refine and_congr (not_congr List.map_eq_nil_iff) (forall₂_congr fun c hc => ?_)
  rw [hsame c hc]

/-- What is plain is a color in every case of letters or in none. -/
theorem IsPlainColor.isColor_lower (h : IsPlainColor s) : isColor (lower s) ↔ isColor s := by
  by_cases hopen : '(' ∈ s
  · rw [h.lower_eq hopen]
  · have hopen' : '(' ∉ lower s := fun hmem => hopen ((mem_lower_iff (by decide)).1 hmem)
    rw [isColor_iff_of_not_mem hopen', isColor_iff_of_not_mem hopen, isHexColor_lower,
      isColorName_lower h.not_kelvin]

/-- A text is a color as it is exactly if it is plain, and one when it is trimmed and lowered. -/
theorem isColor_iff : isColor s ↔ isColor (lower (trim s)) ∧ IsPlainColor s := by
  constructor
  · intro h
    have hplain := isPlainColor_of_isColor h
    rw [hplain.trim_eq, hplain.isColor_lower]
    exact ⟨h, hplain⟩
  · rintro ⟨h, hplain⟩
    rwa [hplain.trim_eq, hplain.isColor_lower] at h

end UtilityCss.Value
