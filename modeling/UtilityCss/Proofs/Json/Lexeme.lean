import Mathlib.Data.List.Basic
import Mathlib.Tactic.Common
import UtilityCss.Json.Printer
import UtilityCss.Json.Scanner
import UtilityCss.Number.Width

/-!
# Strings and numerals read back

What is printed for a string is read off the head of a text, whatever follows
(`stringFrom_flatMap_escapeChar`), and so are the digits of a whole number if nothing follows that could
continue a numeral (`numeral_toDigits`). The other way around, a numeral is read as a binary64 number
or as a whole number that fits 64 bits (`numeral_cases`).
-/

namespace UtilityCss.Json
open Text

variable {s r rest : List Char} {c : Char} {n : Nat}

/-! ### Blanks -/

theorem skipSpace_append {blanks : List Char} (h : ∀ c ∈ blanks, isSpace c) (s : List Char) :
    skipSpace (blanks ++ s) = skipSpace s :=
  List.dropWhile_append_of_pos h

theorem skipSpace_cons (h : isSpace c = false) (s : List Char) : skipSpace (c :: s) = c :: s :=
  List.dropWhile_cons_of_neg (by rw [h]; exact Bool.false_ne_true)

/-! ### Strings -/

theorem hex4_control (h : n < 0x20) (s : List Char) :
    hex4 ('0' :: '0' :: Nat.digitChar (n / 16) :: Nat.digitChar (n % 16) :: s) = .ok (n, s) := by
  have hdigits : ∀ n < 0x20, ['0', '0', Nat.digitChar (n / 16), Nat.digitChar (n % 16)].mapM hexValue? =
      some [0, 0, n / 16, n % 16] := by decide
  have hvalue : [0, 0, n / 16, n % 16].foldl (fun n d => 16 * n + d) 0 = n := by
    simp only [List.foldl_cons, List.foldl_nil]
    omega
  simp only [hex4, hdigits n h, hvalue]

theorem unicodeEscape_control (h : c.toNat < 0x20) (s : List Char) :
    unicodeEscape ('0' :: '0' :: Nat.digitChar (c.toNat / 16) :: Nat.digitChar (c.toNat % 16) :: s) =
      .ok (c, s) := by
  have hlow : isLowSurrogate c.toNat = false := by
    simp only [isLowSurrogate, Bool.and_eq_false_iff, decide_eq_false_iff_not]
    omega
  have hhigh : isHighSurrogate c.toNat = false := by
    simp only [isHighSurrogate, Bool.and_eq_false_iff, decide_eq_false_iff_not]
    omega
  simp only [unicodeEscape, hex4_control h, hlow, hhigh, Bool.false_eq_true, if_false,
    Char.ofNat_toNat]

theorem stringFrom_of_escaped (h : escaped s = .ok (c, r)) :
    stringFrom ('\\' :: s) = (fun p => (c :: p.1, p.2)) <$> stringFrom r := by
  rw [stringFrom]
  split
  · rename_i he
    cases h.symm.trans he
  · rename_i he
    cases h.symm.trans he
    rfl

/-- A character is read off its escape. -/
theorem stringFrom_escapeChar_append (c : Char) (s : List Char) :
    stringFrom (escapeChar c ++ s) = (fun p => (c :: p.1, p.2)) <$> stringFrom s := by
  unfold escapeChar
  split
  case h_8 hquote hbackslash _ _ _ _ _ =>
    split
    · rename_i hcontrol
      exact stringFrom_of_escaped (unicodeEscape_control hcontrol s)
    · rename_i hcontrol
      rw [List.singleton_append, stringFrom.eq_4 _ _ hquote hbackslash, if_neg hcontrol]
  all_goals exact stringFrom_of_escaped rfl

/-- A string is read off its escapes up to the quote behind them. -/
theorem stringFrom_flatMap_escapeChar (t rest : List Char) :
    stringFrom (t.flatMap escapeChar ++ '"' :: rest) = .ok (t, rest) := by
  induction t with
  | nil => simp [stringFrom]
  | cons c t ih =>
      rw [List.flatMap_cons, List.append_assoc, stringFrom_escapeChar_append, ih]
      rfl

/-! ### Numerals -/

theorem head?_toDigits (h : 0 < n) : (Nat.toDigits 10 n).head? ≠ some '0' := by
  induction n using Nat.strongRecOn with
  | ind n ih =>
      by_cases hn : n < 10
      · rw [Nat.toDigits_of_lt_base hn]
        have hdigit : ∀ n < 10, 0 < n → [Nat.digitChar n].head? ≠ some '0' := by decide
        exact hdigit n hn h
      · rw [Nat.toDigits_of_base_le (by decide) (Nat.le_of_not_lt hn), List.head?_append_of_ne_nil _
          Nat.toDigits_ne_nil]
        exact ih _ (by omega) (by omega)

theorem le_ofDigitChars (n : Nat) (s : List Char) : n ≤ Nat.ofDigitChars 10 s n := by
  rw [Nat.ofDigitChars_eq_ofDigitChars_zero]
  calc n = 1 * n := (Nat.one_mul n).symm
    _ ≤ 10 ^ s.length * n := Nat.mul_le_mul_right n (Nat.one_le_pow _ 10 (by decide))
    _ ≤ _ := Nat.le_add_right _ _

theorem ofDigitChars_cons (c : Char) (s : List Char) (n : Nat) :
    Nat.ofDigitChars 10 (c :: s) n = Nat.ofDigitChars 10 s (n * 10 + digitValue c) := by
  rw [Nat.ofDigitChars_cons, Nat.mul_comm, digitValue]

theorem push?_of_lt (h : n * 10 + digitValue c < Nat.pow 2 64) :
    Gathered.push? ⟨n, 0⟩ c = some (n * 10 + digitValue c) := by
  simp only [Gathered.push?]
  exact if_pos h

theorem whole_cons (g : Gathered) (c : Char) (s : List Char) :
    g.whole (c :: s) = match g.push? c with
      | some n => Gathered.whole ⟨n, g.exponent⟩ s
      | none   => ⟨g.significand, g.exponent + (s.length + 1)⟩ := by rfl

/-- Digits are gathered whole as long as their number fits. -/
theorem whole_of_lt (h : Nat.ofDigitChars 10 s n < Nat.pow 2 64) :
    Gathered.whole ⟨n, 0⟩ s = ⟨Nat.ofDigitChars 10 s n, 0⟩ := by
  induction s generalizing n with
  | nil => rfl
  | cons c s ih =>
      rw [ofDigitChars_cons] at h
      have hroom : n * 10 + digitValue c < Nat.pow 2 64 :=
        Nat.lt_of_le_of_lt (le_ofDigitChars _ s) h
      rw [whole_cons, push?_of_lt hroom, ofDigitChars_cons]
      exact ih h

/-- Nothing that could continue a numeral comes next. -/
def EndsNumeral (s : List Char) : Prop :=
  ∀ c ∈ s.head?, ¬ (c.isDigit ∨ c = '.' ∨ c = 'e' ∨ c = 'E')

theorem someDigits_toDigits (h : EndsNumeral rest) (n : Nat) :
    someDigits (Nat.toDigits 10 n ++ rest) = .ok (Nat.toDigits 10 n, rest) := by
  have hdigit : ∀ c ∈ Nat.toDigits 10 n, c.isDigit :=
    fun c hc => Nat.isDigit_of_mem_toDigits (by decide) (by decide) hc
  have hrest : rest.takeWhile Char.isDigit = [] ∧ rest.dropWhile Char.isDigit = rest := by
    cases rest with
    | nil => exact ⟨rfl, rfl⟩
    | cons c rest =>
        have hc : ¬ c.isDigit := fun hc => h c rfl (.inl hc)
        exact ⟨List.takeWhile_cons_of_neg hc, List.dropWhile_cons_of_neg hc⟩
  obtain ⟨c, digits, hdigits⟩ := List.exists_cons_of_ne_nil (Nat.toDigits_ne_nil (n := n) (b := 10))
  rw [hdigits] at hdigit ⊢
  have hlater : ∀ c ∈ digits, c.isDigit := fun d hd => hdigit d (List.mem_cons_of_mem c hd)
  rw [List.cons_append, someDigits, if_pos (hdigit c List.mem_cons_self),
    List.takeWhile_append_of_pos hlater, List.dropWhile_append_of_pos hlater, hrest.1, hrest.2,
    List.append_nil]

theorem numeralFrom_of_endsNumeral {negative : Bool} {g : Gathered} {m : Int} (h : EndsNumeral s)
    (hint : g.toInt? negative = some m) : numeralFrom negative g s = .ok (.int m, s) := by
  simp only [numeralFrom]
  split
  · exact absurd (.inr (.inl rfl)) (h _ rfl)
  · exact absurd (.inr (.inr (.inl rfl))) (h _ rfl)
  · exact absurd (.inr (.inr (.inr rfl))) (h _ rfl)
  · rw [hint]
    rfl

/-- The digits of a number that fits are read as this number, if it has the sign. -/
theorem numeral_toDigits {negative : Bool} {m : Int} (hn : n < Nat.pow 2 64)
    (hint : Gathered.toInt? ⟨n, 0⟩ negative = some m) (hrest : EndsNumeral rest) :
    numeral negative (Nat.toDigits 10 n ++ rest) = .ok (.int m, rest) := by
  have hzero : ¬ ((Nat.toDigits 10 n).head? = some '0' ∧ Nat.toDigits 10 n ≠ ['0']) := by
    rintro ⟨hhead, hne⟩
    rcases Nat.eq_zero_or_pos n with rfl | hpos
    · exact hne (Nat.toDigits_zero 10)
    · exact head?_toDigits hpos hhead
  have hwhole : Gathered.whole ⟨0, 0⟩ (Nat.toDigits 10 n) = ⟨n, 0⟩ := by
    rw [whole_of_lt (by rwa [Nat.ofDigitChars_ten_toDigits]), Nat.ofDigitChars_ten_toDigits]
  rw [numeral, someDigits_toDigits hrest]
  show ite _ _ _ = _
  rw [if_neg hzero]
  show numeralFrom negative (Gathered.whole ⟨0, 0⟩ (Nat.toDigits 10 n)) rest = _
  rw [hwhole]
  exact numeralFrom_of_endsNumeral hrest hint

theorem toList_compact_ofNat (n : Nat) : (compact (.int (.ofNat n))).toList = Nat.toDigits 10 n := by
  show (toString (n : Int)).toList = _
  rw [Int.toString_eq_repr]
  show n.repr.toList = _
  rw [Nat.repr_eq_ofList_toDigits, String.toList_ofList]

theorem toList_compact_negSucc (n : Nat) :
    (compact (.int (.negSucc n))).toList = '-' :: Nat.toDigits 10 (n + 1) := by
  show (toString (Int.negSucc n)).toList = _
  rw [Int.toString_eq_repr]
  show ("-" ++ (n + 1).repr).toList = _
  rw [String.toList_append, Nat.repr_eq_ofList_toDigits]
  exact congrArg ('-' :: ·) String.toList_ofList

theorem numeral_ofNat (h : fitsWidth 63 64 (.ofNat n)) (hrest : EndsNumeral rest) :
    numeral false (Nat.toDigits 10 n ++ rest) = .ok (.int (.ofNat n), rest) :=
  numeral_toDigits (of_decide_eq_true h) rfl hrest

theorem numeral_negSucc (h : fitsWidth 63 64 (.negSucc n)) (hrest : EndsNumeral rest) :
    numeral true (Nat.toDigits 10 (n + 1) ++ rest) = .ok (.int (.negSucc n), rest) := by
  have hn : n < Nat.pow 2 63 := of_decide_eq_true h
  have hfits : 0 < n + 1 ∧ n + 1 ≤ Nat.pow 2 63 := ⟨Nat.succ_pos n, hn⟩
  have hint : Gathered.toInt? ⟨n + 1, 0⟩ true = some (.negSucc n) := if_pos hfits
  exact numeral_toDigits (Nat.lt_of_le_of_lt hn (by decide)) hint hrest

/-! ### What a numeral can be -/

theorem significand_whole_lt {g : Gathered} (h : g.significand < Nat.pow 2 64) (s : List Char) :
    (g.whole s).significand < Nat.pow 2 64 := by
  induction s generalizing g with
  | nil => exact h
  | cons c s ih =>
      rw [whole_cons]
      rcases hpush : g.push? c with _ | n
      · exact h
      · simp only [Gathered.push?, Option.ite_none_right_eq_some] at hpush
        obtain ⟨hroom, hn⟩ := hpush
        cases hn
        exact ih hroom

theorem fitsWidth_of_toInt? {g : Gathered} {negative : Bool} {m : Int}
    (hg : g.significand < Nat.pow 2 64) (h : g.toInt? negative = some m) : fitsWidth 63 64 m := by
  obtain ⟨n, e⟩ := g
  simp only [Gathered.toInt?] at h
  split at h
  · cases h
  split at h
  · cases h
    exact decide_eq_true hg
  split at h
  · rename_i hn
    cases h
    obtain ⟨n, rfl⟩ := Nat.exists_eq_succ_of_ne_zero (Nat.ne_of_gt hn.1)
    exact decide_eq_true hn.2
  · cases h

/-- A numeral is read as a binary64 number or as a whole number that fits. -/
theorem numeral_cases {negative : Bool} {j : Json} (h : numeral negative s = .ok (j, r)) :
    (∃ x, j = .real x) ∨ ∃ m, j = .int m ∧ fitsWidth 63 64 m := by
  obtain ⟨⟨digits, rest⟩, -, h⟩ := ok_of_bind h
  have hfrom : numeralFrom negative (Gathered.whole ⟨0, 0⟩ digits) rest = .ok (j, r) := by
    dsimp only at h
    split at h
    · obtain ⟨_, hthrow, _⟩ := ok_of_bind h
      cases hthrow
    · exact h
  simp only [numeralFrom] at hfrom
  split at hfrom
  case h_4 =>
    split at hfrom
    · rename_i hint
      cases hfrom
      exact .inr ⟨_, rfl, fitsWidth_of_toInt? (significand_whole_lt (by decide) digits) hint⟩
    · obtain ⟨_, -, hreal⟩ := ok_of_map hfrom
      cases hreal
      exact .inl ⟨_, rfl⟩
  all_goals
    obtain ⟨_, -, hreal⟩ := ok_of_map hfrom
    cases hreal
    exact .inl ⟨_, rfl⟩

end UtilityCss.Json
