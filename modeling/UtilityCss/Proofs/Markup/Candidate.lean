import UtilityCss.Markup.Candidate
import Mathlib.Data.List.Basic

/-!
# What candidates are

Two readers look for brackets in a token. The one that finds candidates reads the whole token from
its head: modifiers of plain characters, a key, and a value up to the end, in which a `:` is one
character among others (`IsBracketToken`, `isBracketed_iff`). The one that compiles divides the token
at every `:` first, and looks at the last segment alone (`IsBracketForm`, `isSome_bracketForm?_iff`).
They agree where all modifiers are plain (`isBracketed_of_plain`), and differ elsewhere: a `:` in a
value makes a candidate whose last segment is no bracket form, and a modifier with another character
in it hides a bracket form that is compiled (`isCandidate_iff_namesClass_iff`).
-/

namespace UtilityCss
open Text

variable {s l r last key value : List Char} {modifiers : List (List Char)} {token : String}

/-! ### Bracket forms -/

/-- A non-empty row of key characters. -/
def IsPlain (s : List Char) : Prop := s ≠ [] ∧ s.all isKeyChar

instance : Decidable (IsPlain s) := inferInstanceAs (Decidable (_ ∧ _))

/-- A text `key-[value]` with a plain key and a value on one line. -/
def IsBracketForm (s : List Char) : Prop :=
  ∃ key value, IsPlain key ∧ value ≠ [] ∧ '\n' ∉ value ∧ s = key ++ '-' :: '[' :: value ++ [']']

theorem IsPlain.not_mem {c : Char} (h : IsPlain s) (hc : isKeyChar c = false) : c ∉ s := by
  intro hmem
  have hkey := List.all_eq_true.1 h.2 c hmem
  rw [hc] at hkey
  cases hkey

theorem IsPlain.bracket_not_mem (h : IsPlain s) : '[' ∉ s := h.not_mem (by decide)

theorem IsPlain.colon_not_mem (h : IsPlain s) : ':' ∉ s := h.not_mem (by decide)

theorem ne_of_not_mem {c : Char} (h : c ∉ l) : ∀ d ∈ l, decide (d ≠ c) = true := by
  intro d hd
  simpa using ne_of_mem_of_not_mem hd h

theorem takeWhile_bracket (h : '[' ∉ l) : (l ++ '[' :: r).takeWhile (· ≠ '[') = l := by
  rw [List.takeWhile_append_of_pos (ne_of_not_mem h)]
  simp

theorem dropWhile_bracket (h : '[' ∉ l) : (l ++ '[' :: r).dropWhile (· ≠ '[') = '[' :: r := by
  rw [List.dropWhile_append_of_pos (ne_of_not_mem h)]
  simp

theorem takeWhile_of_not_mem (h : '[' ∉ s) : s.takeWhile (· ≠ '[') = s := by
  have happend : (s ++ []).takeWhile (· ≠ '[') = s ++ [].takeWhile (· ≠ '[') :=
    List.takeWhile_append_of_pos (ne_of_not_mem h)
  rwa [List.takeWhile_nil, List.append_nil] at happend

theorem dropWhile_of_not_mem (h : '[' ∉ s) : s.dropWhile (· ≠ '[') = [] := by
  have happend : (s ++ []).dropWhile (· ≠ '[') = [].dropWhile (· ≠ '[') :=
    List.dropWhile_append_of_pos (ne_of_not_mem h)
  rwa [List.append_nil] at happend

/-- The first bracket opens the value. -/
theorem bracketForm?_append (h : '[' ∉ l) :
    (Rule.bracketForm? (l ++ '[' :: r)).isSome ↔ ∃ key value, IsPlain key ∧ value ≠ [] ∧
      '\n' ∉ value ∧ l = key ++ ['-'] ∧ r = value ++ [']'] := by
  rw [Rule.bracketForm?, takeWhile_bracket h, dropWhile_bracket h, List.drop_one, List.tail_cons]
  constructor
  · split
    · rename_i key value hkey hvalue
      split
      · rename_i hform
        obtain ⟨hk, hplain, hv, hline⟩ := hform
        exact fun _ => ⟨key, value, ⟨hk, hplain⟩, hv, by simpa using hline,
          dropSuffix?_eq_some_iff.1 hkey, dropSuffix?_eq_some_iff.1 hvalue⟩
      · nofun
    · nofun
  · rintro ⟨key, value, ⟨hk, hplain⟩, hv, hline, hl, hr⟩
    rw [dropSuffix?_eq_some_iff.2 hl, dropSuffix?_eq_some_iff.2 hr]
    simpa [hk, hv, hline] using hplain

theorem bracketForm?_of_not_mem (h : '[' ∉ s) : Rule.bracketForm? s = none := by
  have hvalue : dropSuffix? [']'] [] = none := rfl
  rw [Rule.bracketForm?, dropWhile_of_not_mem h, List.drop_nil, hvalue]
  split
  · contradiction
  · rfl

theorem IsBracketForm.bracket_mem (h : IsBracketForm s) : '[' ∈ s := by
  obtain ⟨key, value, -, -, -, rfl⟩ := h
  simp

theorem isSome_bracketForm?_iff : (Rule.bracketForm? s).isSome ↔ IsBracketForm s := by
  constructor
  · intro h
    by_cases hmem : '[' ∈ s
    · obtain ⟨l, r, rfl, hl⟩ := List.eq_append_cons_of_mem hmem
      obtain ⟨key, value, hk, hv, hline, rfl, rfl⟩ := (bracketForm?_append hl).1 h
      exact ⟨key, value, hk, hv, hline, by simp⟩
    · rw [bracketForm?_of_not_mem hmem] at h
      cases h
  · rintro ⟨key, value, hk, hv, hline, rfl⟩
    have hl : '[' ∉ key ++ ['-'] := by simp [hk.bracket_not_mem]
    have h := (bracketForm?_append hl).2 ⟨key, value, hk, hv, hline, rfl, rfl⟩
    simpa using h

/-! ### Segments -/

/-- A text of segments that end with a colon, and a last one. -/
def joined (modifiers : List (List Char)) (last : List Char) : List Char :=
  modifiers.flatMap (· ++ [':']) ++ last

theorem joined_append (modifiers : List (List Char)) (l r : List Char) :
    joined modifiers (l ++ r) = joined modifiers l ++ r :=
  (List.append_assoc ..).symm

theorem splitOn_joined (hm : ∀ m ∈ modifiers, ':' ∉ m) (hl : ':' ∉ last) :
    (joined modifiers last).splitOn ':' = modifiers ++ [last] := by
  induction modifiers with
  | nil => exact List.splitOn_eq_singleton hl
  | cons m modifiers ih =>
      have hcons : joined (m :: modifiers) last = m ++ ':' :: joined modifiers last := by
        simp [joined]
      rw [hcons, List.splitOn_append_cons_self_of_not_mem (hm m List.mem_cons_self),
        ih fun n hn => hm n (List.mem_cons_of_mem m hn), List.cons_append]

/-- Every text is made of segments. -/
theorem exists_joined (s : List Char) :
    ∃ modifiers last, (∀ m ∈ modifiers, ':' ∉ m) ∧ ':' ∉ last ∧ s = joined modifiers last := by
  induction s with
  | nil => exact ⟨[], [], by simp, by simp, rfl⟩
  | cons c s ih =>
      obtain ⟨modifiers, last, hm, hl, rfl⟩ := ih
      -- a colon ends an empty segment; any other character stands first in the segment behind it
      by_cases hc : c = ':'
      · exact ⟨[] :: modifiers, last, by simpa using hm, hl, by simp [hc, joined]⟩
      · have hc' : ':' ≠ c := fun e => hc e.symm
        cases modifiers with
        | nil => exact ⟨[], c :: last, by simp, by simp [hc', hl], rfl⟩
        | cons m modifiers =>
            refine ⟨(c :: m) :: modifiers, last, fun n hn => ?_, hl, by simp [joined]⟩
            rcases List.mem_cons.1 hn with rfl | hn
            · simpa [hc'] using hm m List.mem_cons_self
            · exact hm n (List.mem_cons_of_mem m hn)

theorem bracket_not_mem_joined : '[' ∉ joined modifiers last ↔
    (∀ m ∈ modifiers, '[' ∉ m) ∧ '[' ∉ last := by
  simp [joined]

namespace Token

/-- A segment without its mark of importance. -/
def unmarked (segment : List Char) : List Char := (dropPrefix? ['!'] segment).getD segment

theorem unmarked_marked (s : List Char) : unmarked ('!' :: s) = s := rfl

theorem unmarked_of_ne {c : Char} (hc : c ≠ '!') (s : List Char) : unmarked (c :: s) = c :: s := by
  have hne : '!' ≠ c := fun e => hc e.symm
  simp [unmarked, dropPrefix?, hne]

/-- A segment is a mark or nothing, and the rest. -/
theorem exists_mark (s : List Char) : ∃ mark, (mark = [] ∨ mark = ['!']) ∧ s = mark ++ unmarked s := by
  cases s with
  | nil => exact ⟨[], .inl rfl, rfl⟩
  | cons c s =>
      by_cases hc : c = '!'
      · exact ⟨['!'], .inr rfl, by rw [hc, unmarked_marked]; rfl⟩
      · exact ⟨[], .inl rfl, by rw [unmarked_of_ne hc]; rfl⟩

theorem unmarked_append_bracket (l r : List Char) :
    unmarked (l ++ '[' :: r) = unmarked l ++ '[' :: r := by
  cases l with
  | nil => exact unmarked_of_ne (by decide) r
  | cons c l =>
      by_cases hc : c = '!'
      · rw [hc, List.cons_append, unmarked_marked, unmarked_marked]
      · rw [List.cons_append, unmarked_of_ne hc, unmarked_of_ne hc, List.cons_append]

theorem unmarked_append_of_plain {mark : List Char} (h : mark = [] ∨ mark = ['!'])
    (hk : IsPlain key) (r : List Char) : unmarked (mark ++ (key ++ r)) = key ++ r := by
  rcases h with rfl | rfl
  · cases key with
    | nil => exact absurd rfl hk.1
    | cons c key =>
        have hc : c ≠ '!' := by
          rintro rfl
          exact hk.not_mem (by decide) List.mem_cons_self
        exact unmarked_of_ne hc _
  · exact unmarked_marked _

theorem modifiers_of_joined (h : token.toList = joined modifiers last)
    (hm : ∀ m ∈ modifiers, ':' ∉ m) (hl : ':' ∉ last) :
    (Text.split ':' token).dropLast = modifiers.map String.ofList := by
  simp [Text.split, h, splitOn_joined hm hl]

theorem lastName_of_joined (h : token.toList = joined modifiers last) (hm : ∀ m ∈ modifiers, ':' ∉ m)
    (hl : ':' ∉ last) : (lastName token).toList = unmarked last := by
  have hlast : (Text.split ':' token).getLast? = some (String.ofList last) := by
    simp [Text.split, h, splitOn_joined hm hl]
  rw [lastName, hlast, Option.getD_some, splitImportant, unmarked, String.toList_ofList]
  cases dropPrefix? ['!'] last <;> simp

/-! ### Brackets in a token -/

theorem isBracketed_of_not_mem (h : '[' ∉ token.toList) : isBracketed token = false := by
  obtain ⟨modifiers, last, hm, hl, hs⟩ := exists_joined token.toList
  have hlast : '[' ∉ unmarked last := by
    obtain ⟨mark, -, hmark⟩ := exists_mark last
    rw [hs, bracket_not_mem_joined, hmark] at h
    exact fun hmem => h.2 (List.mem_append_right _ hmem)
  rw [isBracketed, takeWhile_of_not_mem h, dropWhile_of_not_mem h, hs, splitOn_joined hm hl,
    List.getLast?_concat, Option.getD_some, List.append_nil, ← unmarked, bracketForm?_of_not_mem hlast]
  exact Bool.and_false _

/-- The part before the first bracket is divided into segments. -/
theorem isBracketed_append (h : token.toList = joined modifiers l ++ '[' :: r)
    (hm : ∀ m ∈ modifiers, ':' ∉ m) (hl : ':' ∉ l) (hb : '[' ∉ joined modifiers l) :
    isBracketed token ↔ (∀ m ∈ modifiers, IsPlain m) ∧ IsBracketForm (unmarked l ++ '[' :: r) := by
  rw [isBracketed, h, takeWhile_bracket hb, dropWhile_bracket hb, splitOn_joined hm hl,
    List.getLast?_concat, List.dropLast_concat, Option.getD_some, ← isSome_bracketForm?_iff]
  simp [IsPlain, unmarked]

/-- A bracket form behind plain modifiers and an optional mark. The value goes up to the end. -/
def IsBracketToken (s : List Char) : Prop :=
  ∃ modifiers mark form, (∀ m ∈ modifiers, IsPlain m) ∧ (mark = [] ∨ mark = ['!']) ∧
    IsBracketForm form ∧ s = joined modifiers (mark ++ form)

theorem isBracketed_iff : isBracketed token ↔ IsBracketToken token.toList := by
  constructor
  · intro h
    -- the first bracket ends the part that is divided
    by_cases hmem : '[' ∈ token.toList
    · obtain ⟨head, r, hs, hb⟩ := List.eq_append_cons_of_mem hmem
      obtain ⟨modifiers, l, hm, hl, rfl⟩ := exists_joined head
      obtain ⟨hplain, hform⟩ := (isBracketed_append hs hm hl hb).1 h
      obtain ⟨mark, hmark, hlmark⟩ := exists_mark l
      refine ⟨modifiers, mark, _, hplain, hmark, hform, ?_⟩
      rw [hs, ← List.append_assoc, ← hlmark, joined_append]
    · rw [isBracketed_of_not_mem hmem] at h
      cases h
  · rintro ⟨modifiers, mark, form, hplain, hmark, ⟨key, value, hk, hv, hline, rfl⟩, hs⟩
    have hsplit : token.toList =
        joined modifiers (mark ++ (key ++ ['-'])) ++ '[' :: (value ++ [']']) := by
      simp [hs, joined]
    have hcolon : ':' ∉ mark ++ (key ++ ['-']) := by
      rcases hmark with rfl | rfl <;> simp [hk.colon_not_mem]
    have hbracket : '[' ∉ mark ++ (key ++ ['-']) := by
      rcases hmark with rfl | rfl <;> simp [hk.bracket_not_mem]
    rw [isBracketed_append hsplit (fun m hm => (hplain m hm).colon_not_mem) hcolon
      (bracket_not_mem_joined.2 ⟨fun m hm => (hplain m hm).bracket_not_mem, hbracket⟩),
      unmarked_append_of_plain hmark hk]
    exact ⟨hplain, key, value, hk, hv, hline, by simp⟩

/-- Behind plain modifiers, the first bracket stands in the last segment. -/
theorem isBracketed_of_plain (token : String)
    (h : ∀ m ∈ (Text.split ':' token).dropLast, IsPlain m.toList) :
    isBracketed token ↔ IsBracketForm (lastName token).toList := by
  obtain ⟨modifiers, last, hm, hl, hs⟩ := exists_joined token.toList
  have hplain : ∀ m ∈ modifiers, IsPlain m := by
    simpa [modifiers_of_joined hs hm hl] using h
  rw [lastName_of_joined hs hm hl]
  by_cases hmem : '[' ∈ last
  · obtain ⟨l, r, rfl, hb⟩ := List.eq_append_cons_of_mem hmem
    have hl' : ':' ∉ l := fun hc => hl (List.mem_append_left _ hc)
    -- plain modifiers hold no bracket, so the first one of the token is the first one of its name
    rw [joined_append] at hs
    rw [isBracketed_append hs hm hl'
      (bracket_not_mem_joined.2 ⟨fun m hm => (hplain m hm).bracket_not_mem, hb⟩),
      unmarked_append_bracket]
    exact ⟨And.right, fun hform => ⟨hplain, hform⟩⟩
  · have htoken : '[' ∉ token.toList := by
      rw [hs]
      exact bracket_not_mem_joined.2 ⟨fun m hm => (hplain m hm).bracket_not_mem, hmem⟩
    rw [isBracketed_of_not_mem htoken]
    refine ⟨nofun, fun hform => absurd ?_ hmem⟩
    obtain ⟨mark, -, hmark⟩ := exists_mark last
    rw [hmark]
    exact List.mem_append_right _ hform.bracket_mem

/-- A bracket form whose value holds no colon is the last segment. -/
theorem isBracketForm_lastName {mark : List Char} (hm : ∀ m ∈ modifiers, IsPlain m)
    (hmark : mark = [] ∨ mark = ['!']) (hk : IsPlain key) (hv : value ≠ []) (hline : '\n' ∉ value)
    (hcolon : ':' ∉ value)
    (hs : token.toList = joined modifiers (mark ++ (key ++ '-' :: '[' :: value ++ [']']))) :
    IsBracketForm (lastName token).toList := by
  have hlast : ':' ∉ mark ++ (key ++ '-' :: '[' :: value ++ [']']) := by
    rcases hmark with rfl | rfl <;> simp [hk.colon_not_mem, hcolon]
  have hplain : ∀ m ∈ (Text.split ':' token).dropLast, IsPlain m.toList := by
    rw [modifiers_of_joined hs (fun m h => (hm m h).colon_not_mem) hlast]
    simpa using hm
  rw [← isBracketed_of_plain token hplain, isBracketed_iff]
  exact ⟨modifiers, mark, _, hm, hmark, ⟨key, value, hk, hv, hline, rfl⟩, hs⟩

end Token

/-! ### Candidates -/

namespace Compiler

/-- The name of a token is a keyword, a registered utility, or a bracket form. -/
def NamesClass (c : Compiler) (token : String) : Prop :=
  (Rule.ofKeyword? (Token.lastName token)).isSome ∨ c.registry.contains (Token.lastName token) ∨
    (Rule.bracketForm? (Token.lastName token).toList).isSome

instance (c : Compiler) (token : String) : Decidable (c.NamesClass token) :=
  inferInstanceAs (Decidable (_ ∨ _))

theorem isCandidate_iff (c : Compiler) (token : String) : c.isCandidate token ↔
    (Rule.ofKeyword? (Token.lastName token)).isSome ∨ c.registry.contains (Token.lastName token) ∨
      Token.IsBracketToken token.toList := by
  rw [← Token.isBracketed_iff]
  simp only [isCandidate, Bool.or_eq_true, or_assoc, or_left_comm, or_comm]

/-- **When candidates are the tokens that name a class.**  A candidate names a keyword or a utility,
or is a bracket form as a whole token; a token names a class if its last segment does.  The two are
the same for a token that names a keyword or a utility, for one whose modifiers are all plain, and
otherwise exactly if the whole token and its last segment are bracket forms both or neither.  A
candidate that names no class has a colon in its value; a token that names a class and is no candidate
has a modifier that is not plain. -/
theorem isCandidate_iff_namesClass_iff (c : Compiler) (token : String) :
    (c.isCandidate token ↔ (Rule.ofKeyword? (Token.lastName token)).isSome ∨
      c.registry.contains (Token.lastName token) ∨ Token.IsBracketToken token.toList) ∧
    ((c.isCandidate token ↔ c.NamesClass token) ↔
      (Rule.ofKeyword? (Token.lastName token)).isSome ∨
      c.registry.contains (Token.lastName token) ∨
      (∀ m ∈ (Text.split ':' token).dropLast, IsPlain m.toList) ∨
      (Token.IsBracketToken token.toList ↔ IsBracketForm (Token.lastName token).toList)) ∧
    (c.isCandidate token → ¬ c.NamesClass token → ∃ modifiers mark key value,
      (∀ m ∈ modifiers, IsPlain m) ∧ (mark = [] ∨ mark = ['!']) ∧ IsPlain key ∧ ':' ∈ value ∧
      token.toList = joined modifiers (mark ++ (key ++ '-' :: '[' :: value ++ [']']))) ∧
    (c.NamesClass token → ¬ c.isCandidate token →
      ∃ m ∈ (Text.split ':' token).dropLast, ¬ IsPlain m.toList) := by
  have hplain := Token.isBracketed_of_plain token
  rw [Token.isBracketed_iff] at hplain
  rw [isCandidate_iff, NamesClass, isSome_bracketForm?_iff]
  refine ⟨Iff.rfl, ?_, fun hc hn => ?_, fun hn hc => ?_⟩
  · by_cases hk : (Rule.ofKeyword? (Token.lastName token)).isSome
    · simp only [hk, true_or]
    by_cases hr : c.registry.contains (Token.lastName token)
    · simp only [hr, true_or, or_true]
    -- neither a keyword nor a utility: the brackets decide
    simp only [hk, hr, Bool.false_eq_true, false_or]
    exact (or_iff_right_of_imp hplain).symm
  · push Not at hn
    obtain ⟨hk, hr, hform⟩ := hn
    have htoken := (hc.resolve_left hk).resolve_left hr
    obtain ⟨modifiers, mark, _, hm, hmark, ⟨key, value, hkey, hv, hline, rfl⟩, hs⟩ := htoken
    refine ⟨modifiers, mark, key, value, hm, hmark, hkey, ?_, hs⟩
    by_contra hcolon
    exact hform (Token.isBracketForm_lastName hm hmark hkey hv hline hcolon hs)
  · push Not at hc
    obtain ⟨hk, hr, htoken⟩ := hc
    have hform := (hn.resolve_left hk).resolve_left hr
    by_contra hall
    push Not at hall
    exact htoken ((hplain hall).2 hform)

/-- A `:` in a value, and a modifier that is not plain: the first token is kept although no class is
named and nothing comes of it, the second is dropped although a rule comes of it. -/
theorem isCandidate_ne_namesClass :
    ¬ (Compiler.default.isCandidate "bg-[url(https://x)]" ↔
      Compiler.default.NamesClass "bg-[url(https://x)]") ∧
    ¬ (Compiler.default.isCandidate "a.b:p-[4px]" ↔ Compiler.default.NamesClass "a.b:p-[4px]") ∧
    (Compiler.default.compile "bg-[url(https://x)]" .rule).css = none ∧
    (Compiler.default.compile "a.b:p-[4px]" .rule).css ≠ none := by
  refine ⟨?_, ?_, ?_, ?_⟩ <;> decide +kernel

theorem isCandidate_iff_namesClass_iff_differing :
    (∃ modifiers mark key value, (∀ m ∈ modifiers, IsPlain m) ∧ (mark = [] ∨ mark = ['!']) ∧
      IsPlain key ∧ ':' ∈ value ∧
      "bg-[url(https://x)]".toList = joined modifiers (mark ++ (key ++ '-' :: '[' :: value ++ [']']))) ∧
    ∃ m ∈ (Text.split ':' "a.b:p-[4px]").dropLast, ¬ IsPlain m.toList := by
  obtain ⟨-, -, hkept, -⟩ := isCandidate_iff_namesClass_iff .default "bg-[url(https://x)]"
  obtain ⟨-, -, -, hdropped⟩ := isCandidate_iff_namesClass_iff .default "a.b:p-[4px]"
  exact ⟨hkept (by decide +kernel) (by decide +kernel),
    hdropped (by decide +kernel) (by decide +kernel)⟩

end Compiler

end UtilityCss
