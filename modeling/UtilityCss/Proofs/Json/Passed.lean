import UtilityCss.Proofs.Json.Parts

/-!
# Values that are passed over

Passing over a value takes less than reading it: a string needs no characters, a numeral no number, and
brackets may be nested to any depth. But where a value can be read, passing over it ends where reading
it does (`decodes_ignored`).
-/

namespace UtilityCss.Json
open Text

variable {s t r rest : List Char} {c : Char} {d : Nat} {j : Json} {first : Bool} {opened : List Bracket}

/-! ### Scalars -/

/-- An escape is passed over, and so are both halves of a pair of them. -/
theorem skipEscaped_of_escaped (h : escaped s = .ok (c, r)) :
    skipEscaped s = .ok r ∨ ∃ t, skipEscaped s = .ok ('\\' :: 'u' :: t) ∧
      skipEscaped ('u' :: t) = .ok r := by
  unfold escaped at h
  split at h
  · cases h
  · rename_i s
    unfold unicodeEscape at h
    split at h
    · cases h
    · rename_i n t hhex
      have hskip : skipEscaped ('u' :: s) = .ok t := by
        rw [skipEscaped, hhex]
        rfl
      split at h
      · cases h
      split at h
      · unfold lowSurrogate at h
        split at h
        · rename_i t
          split at h
          · cases h
          · rename_i hlow
            split at h
            · obtain ⟨-, rfl⟩ := Prod.mk.inj (Except.ok.inj h)
              refine .inr ⟨t, hskip, ?_⟩
              rw [skipEscaped, hlow]
              rfl
            · cases h
        all_goals cases h
      · obtain ⟨-, rfl⟩ := Prod.mk.inj (Except.ok.inj h)
        exact .inl hskip
  · rename_i c' s hu
    split at h
    · rename_i hshort
      cases h
      refine .inl ?_
      rw [skipEscaped, if_pos (by rw [hshort]; rfl)]
      exact hu
    · cases h

theorem skipString_of_skipEscaped (h : skipEscaped s = .ok r) :
    skipString ('\\' :: s) = skipString r := by
  rw [skipString]
  split
  · rename_i he
    cases h.symm.trans he
  · rename_i he
    cases h.symm.trans he
    rfl

/-- A string that can be read is passed over. -/
theorem skipString_of_stringFrom (h : stringFrom s = .ok (t, r)) : skipString s = .ok r := by
  fun_induction stringFrom s generalizing t with
  | case1 => cases h
  | case2 s =>
      cases h
      rw [skipString]
  | case3 s e he => cases h
  | case4 s c s' he ih =>
      obtain ⟨p, hp, h⟩ := ok_of_map h
      cases h
      have hlater := ih hp
      rcases skipEscaped_of_escaped he with hskip | ⟨t, hskip, hskip'⟩
      · rw [skipString_of_skipEscaped hskip]
        exact hlater
      · rw [skipString_of_skipEscaped hskip, skipString_of_skipEscaped hskip']
        exact hlater
  | case5 c s h₁ h₂ hc => cases h
  | case6 c s h₁ h₂ hc ih =>
      obtain ⟨p, hp, h⟩ := ok_of_map h
      cases h
      rw [skipString, if_neg hc]
      · exact ih hp
      · exact h₁
      · exact h₂

theorem skipDigits_of_someDigits {digits : List Char} (h : someDigits s = .ok (digits, r)) :
    skipScalar.skipDigits s = .ok r := by
  unfold someDigits at h
  split at h
  · cases h
  · split at h
    · rename_i hc
      cases h
      rw [skipScalar.skipDigits, if_pos hc]
    · cases h

theorem skipExponent_of_exponentFrom {g : Gathered} {x : Binary64} (hc : c = 'e' ∨ c = 'E')
    (h : exponentFrom g s = .ok (x, r)) : skipScalar.skipExponent (c :: s) = .ok r := by
  obtain ⟨⟨digits, rest⟩, hdigits, h⟩ := ok_of_bind h
  obtain ⟨y, -, h⟩ := ok_of_bind h
  cases h
  rcases hc with rfl | rfl <;> exact skipDigits_of_someDigits hdigits

theorem skipExponent_of_realFrom {g : Gathered} {x : Binary64} (h : realFrom g s = .ok (x, r)) :
    skipScalar.skipExponent s = .ok r := by
  unfold realFrom at h
  split at h
  · exact skipExponent_of_exponentFrom (.inl rfl) h
  · exact skipExponent_of_exponentFrom (.inr rfl) h
  · rename_i he hE
    obtain ⟨y, -, h⟩ := ok_of_bind h
    cases h
    unfold skipScalar.skipExponent
    split
    · exact absurd rfl (he _)
    · exact absurd rfl (hE _)
    · rfl

theorem skipFraction_of_numeralFrom {negative : Bool} {g : Gathered}
    (h : numeralFrom negative g s = .ok (j, r)) : skipScalar.skipFraction s = .ok r := by
  simp only [numeralFrom] at h
  split at h
  · obtain ⟨⟨x, rest⟩, hx, h⟩ := ok_of_map h
    cases h
    obtain ⟨⟨digits, later⟩, hdigits, hreal⟩ := ok_of_bind hx
    rw [skipScalar.skipFraction, skipDigits_of_someDigits hdigits]
    exact skipExponent_of_realFrom hreal
  · obtain ⟨⟨x, rest⟩, hx, h⟩ := ok_of_map h
    cases h
    exact skipExponent_of_exponentFrom (.inl rfl) hx
  · obtain ⟨⟨x, rest⟩, hx, h⟩ := ok_of_map h
    cases h
    exact skipExponent_of_exponentFrom (.inr rfl) hx
  · rename_i hpoint he hE
    have hrest : r = s := by
      split at h
      · cases h
        rfl
      · obtain ⟨x, -, h⟩ := ok_of_map h
        cases h
        rfl
    rw [hrest]
    unfold skipScalar.skipFraction skipScalar.skipExponent
    split
    · exact absurd rfl (hpoint _)
    · split
      · exact absurd rfl (he _)
      · exact absurd rfl (hE _)
      · rfl

/-- A numeral that can be read is passed over. -/
theorem skipNumeral_of_numeral {negative : Bool} (h : numeral negative s = .ok (j, r)) :
    skipScalar.skipNumeral s = .ok r := by
  obtain ⟨digits, rest, hdigits, hzero, hfrom⟩ := exists_digits_of_numeral h
  have hfraction := skipFraction_of_numeralFrom hfrom
  unfold skipScalar.skipNumeral
  split
  · rename_i c t
    rw [someDigits, if_pos (by decide)] at hdigits
    obtain ⟨rfl, rfl⟩ := Prod.mk.inj (Except.ok.inj hdigits)
    have hc : ¬ c.isDigit := by
      intro hc
      have hzero := hzero rfl
      rw [List.takeWhile_cons_of_pos hc] at hzero
      cases hzero
    rw [if_neg hc]
    rwa [List.dropWhile_cons_of_neg hc] at hfraction
  · rw [skipDigits_of_someDigits hdigits]
    exact hfraction

theorem skipScalar_of_numberAt (h : NumberAt s j r) : skipScalar (skipSpace s) = .ok r := by
  cases h with
  | negative hs hn =>
      rw [hs]
      exact skipNumeral_of_numeral hn
  | unsigned hs hc hn =>
      rw [hs]
      unfold skipScalar
      split
      case h_7 e =>
        cases e
        rw [if_pos hc]
        exact skipNumeral_of_numeral hn
      case h_1 e => cases e
      all_goals
        rename_i e
        cases e
        exact absurd hc (by decide)

/-! ### One step -/

section Steps

variable {b : Bracket}

theorem skipFrom_end (hs : skipSpace s = b.closer :: r) :
    skipFrom .nextPart (b :: opened) s = skipFrom .nextPart opened r := by
  rw [skipFrom]
  split
  · rename_i hs'
    cases hs.symm.trans hs'
  · rename_i hs'
    cases hs.symm.trans hs'
    have hcomma : b.closer ≠ ',' := by cases b <;> decide
    rw [if_neg hcomma, if_pos rfl]

theorem skipFrom_emptyEnd (hs : skipSpace s = b.closer :: r) :
    skipFrom .firstPart (b :: opened) s = skipFrom .nextPart opened r := by
  rw [skipFrom]
  split
  · rename_i hs'
    cases hs.symm.trans hs'
  · rename_i hs'
    cases hs.symm.trans hs'
    rw [if_pos rfl]

theorem skipFrom_firstPart (hs : skipSpace s = c :: r) (hc : c ≠ b.closer) :
    skipFrom .firstPart (b :: opened) s =
      skipFrom (if b = .array then .value else .key) (b :: opened) s := by
  rw [skipFrom]
  split
  · rename_i hs'
    cases hs.symm.trans hs'
  · rename_i hs'
    cases hs.symm.trans hs'
    rw [if_neg hc]

theorem skipFrom_comma (hs : skipSpace s = ',' :: r) :
    skipFrom .nextPart (b :: opened) s =
      skipFrom (if b = .array then .value else .key) (b :: opened) r := by
  rw [skipFrom]
  split
  · rename_i hs'
    cases hs.symm.trans hs'
  · rename_i hs'
    cases hs.symm.trans hs'
    rw [if_pos rfl]

theorem skipFrom_key (hs : skipSpace s = '"' :: r) (hkey : skipKey r = .ok rest) :
    skipFrom .key (b :: opened) s = skipFrom .value (b :: opened) rest := by
  conv_lhs => rw [skipFrom]
  split
  · rename_i hs'
    cases hs.symm.trans hs'
    split
    · rename_i hkey'
      cases hkey.symm.trans hkey'
      rfl
    · rename_i hkey'
      cases hkey.symm.trans hkey'
  · rename_i hs'
    cases hs.symm.trans hs'
  · rename_i hne _
    exact absurd hs (hne _)

theorem skipFrom_array (hs : skipSpace s = '[' :: r) :
    skipFrom .value opened s = skipFrom .firstPart (.array :: opened) r := by
  rw [skipFrom]
  split
  · rename_i hs'
    cases hs.symm.trans hs'
    rfl
  · rename_i hs'
    cases hs.symm.trans hs'
  · rename_i hne _
    exact absurd hs (hne _)

theorem skipFrom_object (hs : skipSpace s = '\x7b' :: r) :
    skipFrom .value opened s = skipFrom .firstPart (.object :: opened) r := by
  rw [skipFrom]
  split
  · rename_i hs'
    cases hs.symm.trans hs'
  · rename_i hs'
    cases hs.symm.trans hs'
    rfl
  · rename_i hne
    exact absurd hs (hne _)

theorem skipFrom_scalar (hscalar : skipScalar (skipSpace s) = .ok rest) :
    skipFrom .value opened s = skipFrom .nextPart opened rest := by
  conv_lhs => rw [skipFrom]
  split
  · rename_i hs
    rw [hs] at hscalar
    cases hscalar
  · rename_i hs
    rw [hs] at hscalar
    cases hscalar
  · split
    · rename_i hscalar'
      cases hscalar.symm.trans hscalar'
      rfl
    · rename_i hscalar'
      cases hscalar.symm.trans hscalar'

end Steps

/-! ### Brackets -/

/-- Passing over a value at this depth comes out behind it. -/
def Passes (d : Nat) : Prop := ∀ {s j r}, Gives (Reader.value d s) j r →
  ∀ opened, skipFrom .value opened s = skipFrom .nextPart opened r

theorem passes_elements (hd : Passes d) {l : List Json} (h : Elements d first s l r) :
    skipFrom (if first then .firstPart else .nextPart) (.array :: opened) s =
      skipFrom .nextPart opened r := by
  induction h with
  | @done first s r hs =>
      cases first
      · exact skipFrom_end hs
      · exact skipFrom_emptyEnd hs
  | @first s t s' r c j l hs hc hvalue hlater ih =>
      rw [if_pos rfl, skipFrom_firstPart (b := .array) hs hc, if_pos rfl, hd hvalue]
      exact ih
  | @next s t u s' r c j l hs ht hc hvalue hlater ih =>
      rw [if_neg Bool.false_ne_true, skipFrom_comma hs, if_pos rfl, hd hvalue]
      exact ih

theorem passes_members (hd : Passes d) {l : List (String × Json)} (h : Members d first s l r) :
    skipFrom (if first then .firstPart else .nextPart) (.object :: opened) s =
      skipFrom .nextPart opened r := by
  induction h with
  | @done first s r hs =>
      cases first
      · exact skipFrom_end hs
      · exact skipFrom_emptyEnd hs
  | @next first s t u v w s' r key c j l hs hc hstart hkey hcolon hvalue hlater ih =>
      have hpassed : skipKey u = .ok w := by
        rw [skipKey, skipString_of_stringFrom hkey]
        simp only [hcolon]
      cases first with
      | true =>
          obtain ⟨rfl, rfl⟩ := eq_quote_of_keyStart hstart
          rw [if_pos rfl, skipFrom_firstPart (b := .object) hs hc, if_neg (by decide),
            skipFrom_key hs hpassed, hd hvalue]
          exact ih
      | false =>
          obtain ⟨rfl, hquote⟩ := eq_comma_of_keyStart hstart
          rw [if_neg Bool.false_ne_true, skipFrom_comma hs, if_neg (by decide),
            skipFrom_key hquote hpassed, hd hvalue]
          exact ih

theorem passes_of_deeper (h : ∀ e, d = e + 1 → Passes e) : Passes d := by
  intro s j r hvalue opened
  cases valueAt_of_gives hvalue with
  | array hs hd hl => rw [skipFrom_array hs, ← passes_elements (h _ hd) hl, if_pos rfl]
  | object hs hd hl => rw [skipFrom_object hs, ← passes_members (h _ hd) hl, if_pos rfl]
  | string hs hcs =>
      refine skipFrom_scalar ?_
      rw [hs]
      exact skipString_of_stringFrom hcs
  | null hs hw | true hs hw | false hs hw =>
      refine skipFrom_scalar ?_
      rw [hs]
      exact hw
  | int h | real h => exact skipFrom_scalar (skipScalar_of_numberAt h)

theorem passes_value (d : Nat) : Passes d := by
  induction d with
  | zero =>
      refine passes_of_deeper fun e he => ?_
      cases he
  | succ d ih =>
      refine passes_of_deeper fun e he => ?_
      cases he
      exact ih

/-- A value that can be read is passed over. -/
theorem decodes_ignored (d : Nat) : Decodes d Reader.ignored fun _ => some () := by
  intro s j r hvalue a rest
  have hpassed : skipFrom .value [] s = .ok r := (passes_value d hvalue []).trans (by rw [skipFrom])
  have hgives : Gives (Reader.ignored s) () r := by
    rw [Reader.ignored]
    split
    · rename_i h
      cases hpassed.symm.trans h
      exact ⟨_, rfl⟩
    · rename_i h
      cases hpassed.symm.trans h
  constructor
  · intro h
    exact ⟨rfl, (h.unique hgives).2⟩
  · rintro ⟨-, rfl⟩
    exact hgives

end UtilityCss.Json
