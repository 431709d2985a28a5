import UtilityCss.Proofs.Selector.Symbol
import UtilityCss.Proofs.Sheet.Occurrence
import UtilityCss.Proofs.Text
import UtilityCss.Text.Digit

/-!
# Selectors that are identifiers

The name behind the dot of a class selector is an identifier: it begins like one (`BeginsIdentifier`),
and it spells its value in characters that may stand bare and in escapes (`Spells`). An escape is a
backslash with a character behind it, or with the number of a character in hexadecimal digits.

An escaped name spells no other value than the name, and spells it if there is no control character in
it (`spells_escapeChars_iff`); but escaping a character does not depend on its place, so a digit at the
head of a name, or behind a hyphen there, stands bare where no identifier may have one
(`isIdentifier_escape_iff`). That is all that can be wrong with the selector of a class that was found in
a document (`Compiler.isIdentifier_nameText_iff`).
-/

namespace UtilityCss

namespace Selector
open Text

/-- Whether a character may stand bare in an identifier. -/
def isNameChar (c : Char) : Bool := c.isAlphanum || c = '-' || c = '_' || 0x80 ≤ c.toNat

/-- Whether a character may stand bare at the head of an identifier. -/
def isNameStart (c : Char) : Bool := c.isAlpha || c = '_' || 0x80 ≤ c.toNat

/-- Whether a character is a control character of ASCII. -/
def isControl (c : Char) : Bool := c.toNat < 0x20 || c.toNat = 0x7F

def isLineEnd (c : Char) : Bool := c = '\n' || c = '\r' || c = '\x0c'

/-- The character that a number in an escape stands for. -/
def charOfNumber (n : Nat) : Char :=
  if n ≠ 0 ∧ n.isValidChar then Char.ofNat n else '\uFFFD'

/-- The character that an escape stands for, and what follows the escape, read behind its backslash. A
number has up to six digits, and one blank behind it belongs to it. -/
def escaped? : List Char → Option (Char × List Char)
  | []     => none
  | c :: s =>
    if isLineEnd c then none
    else if (hexValue? c).isSome then
      let digits := ((c :: s).take 6).takeWhile fun d => (hexValue? d).isSome
      let number := digits.foldl (fun n d => 16 * n + (hexValue? d).getD 0) 0
      match (c :: s).drop digits.length with
      | []     => some (charOfNumber number, [])
      | b :: r =>
        some (charOfNumber number, if b = ' ' || b = '\t' || isLineEnd b then r else b :: r)
    else some (c, s)

/-- A text spells a value, character by character, in bare characters and escapes. -/
inductive Spells : List Char → List Char → Prop where
  | nil : Spells [] []
  | bare {c : Char} {s v : List Char} (hc : isNameChar c) (h : Spells s v) : Spells (c :: s) (c :: v)
  | escape {c : Char} {s r v : List Char} (he : escaped? s = some (c, r)) (h : Spells r v) :
      Spells ('\\' :: s) (c :: v)

/-- Whether a text begins with an escape or with a character that may stand at the head. -/
def beginsName : List Char → Bool
  | []        => false
  | '\\' :: s => (escaped? s).isSome
  | c :: _    => isNameStart c

/-- Whether a text begins as identifiers do, of which some begin with a hyphen. -/
def beginsIdentifier : List Char → Bool
  | '-' :: s => s.head? = some '-' || beginsName s
  | s        => beginsName s

/-- A text is an identifier and stands for a value. -/
structure IsIdentifier (text value : String) : Prop where
  begins : beginsIdentifier text.toList
  spells : Spells text.toList value.toList

/-- Whether a name begins with a digit, or with one behind a hyphen. -/
def beginsNumber : List Char → Bool
  | '-' :: c :: _ => c.isDigit
  | c :: _        => c.isDigit
  | []            => false

variable {c : Char} {s v : List Char}

/-! ### Characters -/

/-- A character is special, or may stand bare, or is a control character. -/
theorem isNameChar_eq (hc : isSpecial c = false) : isNameChar c = !isControl c := by
  by_cases hascii : c.toNat < 0x80
  · have hall := forall_ascii (p := fun c => isSpecial c || isNameChar c == !isControl c)
      (by decide +kernel) hascii
    simpa [hc] using hall
  · have hlarge : 0x80 ≤ c.toNat := by omega
    have hnot : isControl c = false := by
      simp only [isControl, Bool.or_eq_false_iff, decide_eq_false_iff_not]
      omega
    simp [isNameChar, hlarge, hnot]

/-- Of the characters that may stand bare, the hyphen and the digits may not stand at the head. -/
theorem isNameStart_eq (hc : isNameChar c) (hne : c ≠ '-') : isNameStart c = !c.isDigit := by
  by_cases hascii : c.toNat < 0x80
  · have hall := forall_ascii
      (p := fun c => !isNameChar c || c = '-' || isNameStart c == !c.isDigit)
      (by decide +kernel) hascii
    simpa [hc, hne] using hall
  · have hlarge : 0x80 ≤ c.toNat := by omega
    have hdigit : c.isDigit = false := by
      have hval : c.val.toNat = c.toNat := rfl
      simp only [Char.isDigit, Bool.and_eq_false_iff, decide_eq_false_iff_not, ge_iff_le,
        UInt32.le_iff_toNat_le, hval]
      right
      have hnine : '9'.val.toNat = 57 := rfl
      omega
    simp [isNameStart, hlarge, hdigit]

theorem isNameChar_backslash : isNameChar '\\' = false := by decide

/-- Special characters are neither digits of any kind nor line ends nor control characters. -/
theorem plain_of_special (hc : isSpecial c) :
    isLineEnd c = false ∧ (hexValue? c).isSome = false ∧ c.isDigit = false ∧ isControl c = false := by
  have hall : (" !\"#$%&'()*+,./:;<=>?@[\\]^`\x7b|\x7d~".toList).all (fun c => decide
      (isLineEnd c = false ∧ (hexValue? c).isSome = false ∧ c.isDigit = false ∧
        isControl c = false)) = true := by decide
  simpa using List.all_eq_true.1 hall c (by simpa [isSpecial] using hc)

/-- A special character behind a backslash is an escape by itself. -/
theorem escaped?_cons (hc : isSpecial c) (s : List Char) : escaped? (c :: s) = some (c, s) := by
  obtain ⟨hline, hnumber, -, -⟩ := plain_of_special hc
  simp only [escaped?, hline, hnumber, Bool.false_eq_true, if_false]

/-! ### Escaped names -/

/-- A special character of a name is an escape, which stands for it. -/
theorem spells_escapeChars_cons_of_special (hc : isSpecial c) (s v : List Char) :
    Spells (escapeChars (c :: s)) v ↔ ∃ w, v = c :: w ∧ Spells (escapeChars s) w := by
  rw [escapeChars_cons_of_special hc]
  constructor
  · intro h
    cases h with
    | bare hbare _ =>
        rw [isNameChar_backslash] at hbare
        cases hbare
    | escape he h =>
        rw [escaped?_cons hc] at he
        cases he
        exact ⟨_, rfl, h⟩
  · rintro ⟨w, rfl, h⟩
    exact .escape (escaped?_cons hc _) h

/-- Any other character stands for itself, if it may stand bare. -/
theorem spells_escapeChars_cons_of_not_special (hc : isSpecial c = false) (s v : List Char) :
    Spells (escapeChars (c :: s)) v ↔
      isNameChar c ∧ ∃ w, v = c :: w ∧ Spells (escapeChars s) w := by
  rw [escapeChars_cons_of_not_special hc]
  constructor
  · intro h
    cases h with
    | bare hbare h => exact ⟨hbare, _, rfl, h⟩
    | escape _ _ => exact absurd rfl (ne_backslash_of_not_special hc)
  · rintro ⟨hbare, w, rfl, h⟩
    exact .bare hbare h

/-- An escaped name spells the name and nothing else, if there is no control character in it. -/
theorem spells_escapeChars_iff :
    Spells (escapeChars s) v ↔ v = s ∧ ∀ c ∈ s, isControl c = false := by
  induction s generalizing v with
  | nil =>
      constructor
      · intro h
        cases h
        exact ⟨rfl, nofun⟩
      · rintro ⟨rfl, -⟩
        exact .nil
  | cons c s ih =>
      cases hc : isSpecial c with
      | true =>
          obtain ⟨-, -, -, hcontrol⟩ := plain_of_special hc
          rw [spells_escapeChars_cons_of_special hc]
          simp only [ih, List.forall_mem_cons, hcontrol, true_and]
          constructor
          · rintro ⟨w, rfl, rfl, h⟩
            exact ⟨rfl, h⟩
          · rintro ⟨rfl, h⟩
            exact ⟨s, rfl, rfl, h⟩
      | false =>
          rw [spells_escapeChars_cons_of_not_special hc, isNameChar_eq hc]
          simp only [ih, List.forall_mem_cons, Bool.not_eq_true']
          constructor
          · rintro ⟨hcontrol, w, rfl, rfl, h⟩
            exact ⟨rfl, hcontrol, h⟩
          · rintro ⟨rfl, hcontrol, h⟩
            exact ⟨hcontrol, s, rfl, rfl, h⟩

/-! ### The head of an escaped name -/

/-- At the head of an escaped name stands its first character or a backslash. -/
theorem head?_escapeChars_cons (c : Char) (s : List Char) :
    (escapeChars (c :: s)).head? = some (if isSpecial c then '\\' else c) := by
  rw [escapeChars]
  split <;> rfl

/-- An escaped name begins as a name does, unless its first character is a hyphen or a digit. -/
theorem beginsName_escapeChars_cons (hcontrol : isControl c = false) (hne : c ≠ '-')
    (s : List Char) : beginsName (escapeChars (c :: s)) = !c.isDigit := by
  cases hc : isSpecial c with
  | true =>
      obtain ⟨-, -, hdigit, -⟩ := plain_of_special hc
      rw [escapeChars_cons_of_special hc, beginsName, escaped?_cons hc, hdigit]
      rfl
  | false =>
      have hbare : isNameChar c := by rw [isNameChar_eq hc, hcontrol]; rfl
      rw [escapeChars_cons_of_not_special hc, beginsName, isNameStart_eq hbare hne]
      exact ne_backslash_of_not_special hc

theorem beginsIdentifier_of_head?_ne (h : s.head? ≠ some '-') :
    beginsIdentifier s = beginsName s := by
  rw [beginsIdentifier]
  rintro r rfl
  exact h rfl

theorem head?_escapeChars_cons_ne (hne : c ≠ '-') (s : List Char) :
    (escapeChars (c :: s)).head? ≠ some '-' := by
  rw [head?_escapeChars_cons]
  split
  · decide
  · simpa using hne

/-- Behind a hyphen, an escaped name begins an identifier with a second hyphen or as a name does. -/
theorem beginsIdentifier_escapeChars_hyphen (hs : ∀ c ∈ s, isControl c = false) :
    beginsIdentifier (escapeChars ('-' :: s)) ↔ s ≠ [] ∧ beginsNumber ('-' :: s) = false := by
  rw [escapeChars_cons_of_not_special (by decide), beginsIdentifier]
  cases s with
  | nil => decide
  | cons c s =>
      by_cases hc : c = '-'
      · subst hc
        rw [escapeChars_cons_of_not_special (by decide)]
        exact ⟨fun _ => ⟨List.cons_ne_nil _ _, rfl⟩, fun _ => rfl⟩
      · have hcontrol := hs c List.mem_cons_self
        simp [head?_escapeChars_cons_ne hc, beginsName_escapeChars_cons hcontrol hc, beginsNumber]

theorem beginsIdentifier_escapeChars_iff (hs : ∀ c ∈ s, isControl c = false) :
    beginsIdentifier (escapeChars s) ↔ s ≠ [] ∧ s ≠ ['-'] ∧ beginsNumber s = false := by
  cases s with
  | nil => decide
  | cons c s =>
      by_cases hc : c = '-'
      · subst hc
        rw [beginsIdentifier_escapeChars_hyphen fun c hmem => hs c (List.mem_cons_of_mem _ hmem)]
        simp
      · have hcontrol := hs c List.mem_cons_self
        have hnumber : beginsNumber (c :: s) = c.isDigit := by
          rw [beginsNumber]
          rintro _ _ rfl
          exact absurd rfl hc
        rw [beginsIdentifier_of_head?_ne (head?_escapeChars_cons_ne hc s),
          beginsName_escapeChars_cons hcontrol hc, hnumber]
        simp [hc]

/-- An escaped name is an identifier, and stands for the name alone, unless it is empty, a hyphen, begins
with a number or has a control character in it. -/
theorem isIdentifier_escape_iff {name value : String} : IsIdentifier (escape name) value ↔
    value = name ∧ name ≠ "" ∧ name ≠ "-" ∧ beginsNumber name.toList = false ∧
      ∀ c ∈ name.toList, isControl c = false := by
  have htext : (escape name).toList = escapeChars name.toList := String.toList_ofList
  have hempty : name.toList ≠ [] ↔ name ≠ "" := not_congr String.toList_eq_nil_iff
  have hhyphen : name.toList ≠ ['-'] ↔ name ≠ "-" := by
    rw [ne_eq, ne_eq, ← String.toList_inj]
    rfl
  constructor
  · rintro ⟨hbegins, hspells⟩
    rw [htext] at hbegins hspells
    obtain ⟨hvalue, hcontrol⟩ := spells_escapeChars_iff.1 hspells
    rw [beginsIdentifier_escapeChars_iff hcontrol, hempty, hhyphen] at hbegins
    obtain ⟨hne, hne', hnumber⟩ := hbegins
    exact ⟨String.toList_inj.1 hvalue, hne, hne', hnumber, hcontrol⟩
  · rintro ⟨rfl, hne, hne', hnumber, hcontrol⟩
    refine ⟨?_, ?_⟩
    · rw [htext, beginsIdentifier_escapeChars_iff hcontrol, hempty, hhyphen]
      exact ⟨hne, hne', hnumber⟩
    · rw [htext]
      exact spells_escapeChars_iff.2 ⟨rfl, hcontrol⟩

end Selector

/-! ### The selectors of a stylesheet -/

namespace Compiler
open Selector

variable {c : Compiler} {document token css : String}

/-- A class that is found in a document has a name. -/
theorem ne_empty_of_mem_classesOf (h : token ∈ c.classesOf document) : token ≠ "" := by
  rw [classesOf_eq, List.mem_eraseDups] at h
  obtain ⟨v, -, hv⟩ := List.mem_flatMap.1 (List.mem_filter.1 h).1
  obtain ⟨w, hw, rfl⟩ := List.mem_map.1 hv
  rw [ne_eq, ← String.toList_eq_nil_iff, String.toList_ofList]
  exact Text.ne_nil_of_mem_wordsFrom hw

/-- **When the selector of a class is an identifier.**  The rule of a class that was found in a document
has the escaped token in its selector. This is an identifier, and then it stands for the token and for
nothing else, exactly if the token is no hyphen, begins with no number, and has no control character in
it. -/
theorem isIdentifier_nameText_iff (hclass : token ∈ c.classesOf document)
    (h : (c.compile token .rule).css = some css) :
    nameText css = escape token ∧ ∀ value, IsIdentifier (nameText css) value ↔
      value = token ∧ token ≠ "-" ∧ beginsNumber token.toList = false ∧
        ∀ ch ∈ token.toList, isControl ch = false := by
  have hname := nameText_of_compile h
  refine ⟨hname, fun value => ?_⟩
  rw [hname, isIdentifier_escape_iff]
  exact and_congr_right fun _ => and_iff_right (ne_empty_of_mem_classesOf hclass)

/-- A hyphen and a special character at the head. -/
theorem isIdentifier_nameText_iff_hyphen :
    let document := "<p class='-@:hover:flex'>"
    let token := "-@:hover:flex"
    let css := ".-\\@\\:hover\\:flex:hover \x7b display: flex; \x7d"
    token ∈ default.classesOf document ∧ (default.compile token .rule).css = some css ∧
      nameText css = escape token ∧ ∀ value, IsIdentifier (nameText css) value ↔
        value = token ∧ token ≠ "-" ∧ beginsNumber token.toList = false ∧
          ∀ ch ∈ token.toList, isControl ch = false := by
  intro document token css
  have hclass : token ∈ default.classesOf document := by decide +kernel
  have h : (default.compile token .rule).css = some css := by decide +kernel
  exact ⟨hclass, h, isIdentifier_nameText_iff hclass h⟩

/-- A breakpoint whose name begins with a digit. -/
def wide : Compiler := { default with breakpoints := BreakpointTable.default.insert "2xl" 1536 }

/-- A class behind such a breakpoint has a rule whose selector is no identifier, though there is one
that stands for the class; and so has a class behind a modifier with a control character. -/
theorem not_isIdentifier_digit :
    "2xl:flex" ∈ wide.classesOf "<p class='2xl:flex'>" ∧
      (wide.compile "2xl:flex" .rule).css =
        some "@media (min-width: 1536px) \x7b\n  .2xl\\:flex \x7b display: flex; \x7d\n\x7d" ∧
      (¬ ∃ value, IsIdentifier (escape "2xl:flex") value) ∧
      IsIdentifier "\\32 xl\\:flex" "2xl:flex" ∧
      "\x7f:flex" ∈ default.classesOf "<p class='\x7f:flex'>" ∧
      (default.compile "\x7f:flex" .rule).css ≠ none ∧
      ¬ ∃ value, IsIdentifier (escape "\x7f:flex") value := by
  refine ⟨by decide +kernel, by decide +kernel, ?_, ⟨by decide +kernel, ?_⟩, by decide +kernel,
    by decide +kernel, ?_⟩
  · rintro ⟨value, h⟩
    obtain ⟨-, -, -, hnumber, -⟩ := isIdentifier_escape_iff.1 h
    exact absurd hnumber (by decide)
  · -- the digits and the blank behind them are one escape
    refine .escape (c := '2') (r := "xl\\:flex".toList) (by decide) ?_
    refine .bare (by decide) (.bare (by decide) ?_)
    refine .escape (c := ':') (r := "flex".toList) (by decide) ?_
    exact .bare (by decide) (.bare (by decide) (.bare (by decide) (.bare (by decide) .nil)))
  · rintro ⟨value, h⟩
    obtain ⟨-, -, -, -, hcontrol⟩ := isIdentifier_escape_iff.1 h
    exact absurd (hcontrol '\x7f' List.mem_cons_self) (by decide)

end Compiler

end UtilityCss
