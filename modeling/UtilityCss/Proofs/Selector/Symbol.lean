import UtilityCss.Proofs.Expansion.Mode

/-!
# Names read back from selectors

An escaped name is read symbol by symbol: a backslash and the character behind it are one symbol, and
any other character is one by itself (`Selector.symbols`). An escaped name has one symbol for each
character of the name, and those of the special characters are escaped
(`Selector.symbols_escapeChars_append`). So no space and no colon of a name stands bare, and behind the
dot of a rule the name goes up to the first one that does (`Selector.nameText_append`). Whatever stands
around it, the token of a rule is read off the rule (`Compiler.rules_tell_tokens`).
-/

namespace UtilityCss

namespace Selector

/-- A character of an escaped text, bare or behind a backslash of its own. -/
structure Symbol where
  char    : Char
  escaped : Bool
deriving DecidableEq, Repr

/-- A symbol as it is written. -/
def Symbol.chars (x : Symbol) : List Char := if x.escaped then ['\\', x.char] else [x.char]

/-- The symbols of a text, read from left to right. -/
def symbols : List Char → List Symbol
  | []             => []
  | '\\' :: c :: s => ⟨c, true⟩ :: symbols s
  | c :: s         => ⟨c, false⟩ :: symbols s

/-- The symbol of a character in an escaped name. -/
def symbolOf (c : Char) : Symbol := ⟨c, isSpecial c⟩

/-- The name that a text escapes. -/
def unescape (s : String) : String := String.ofList (unescapeChars s.toList)

/-- Whether a name ends before a symbol: a space or a colon that stands bare. -/
def Symbol.endsName (x : Symbol) : Bool := !x.escaped && (x.char = ' ' || x.char = ':')

/-- The name in the selector of a rule, as it is written: from behind the first dot up to a bare space
or colon. -/
def nameText (rule : String) : String :=
  String.ofList (((symbols (rule.toList.dropWhile (· ≠ '.')).tail).takeWhile (!·.endsName)).flatMap
    Symbol.chars)

variable {c : Char} {s r opening later : List Char}

/-! ### Symbols -/

theorem symbols_cons_of_ne (hc : c ≠ '\\') (s : List Char) :
    symbols (c :: s) = ⟨c, false⟩ :: symbols s := by
  rw [symbols]
  rintro _ _ rfl
  exact absurd rfl hc

/-- Reading loses nothing. -/
theorem flatMap_chars_symbols (s : List Char) : (symbols s).flatMap Symbol.chars = s := by
  fun_induction symbols s with
  | case1 => rfl
  | case2 c s ih => rw [List.flatMap_cons, ih]; rfl
  | case3 c s _ ih => rw [List.flatMap_cons, ih]; rfl

/-- The name that a text escapes is the row of the characters of its symbols. -/
theorem map_char_symbols (s : List Char) : (symbols s).map Symbol.char = unescapeChars s := by
  fun_induction symbols s with
  | case1 => rfl
  | case2 c s ih => rw [List.map_cons, ih, unescapeChars]
  | case3 c s hc ih => rw [List.map_cons, ih, unescapeChars]; exact hc

theorem escapeChars_cons_of_special (hc : isSpecial c) (s : List Char) :
    escapeChars (c :: s) = '\\' :: c :: escapeChars s := by
  rw [escapeChars, if_pos hc]

theorem escapeChars_cons_of_not_special (hc : isSpecial c = false) (s : List Char) :
    escapeChars (c :: s) = c :: escapeChars s := by
  rw [escapeChars, if_neg (Bool.eq_false_iff.1 hc)]

theorem ne_backslash_of_not_special (hc : isSpecial c = false) : c ≠ '\\' := by
  rintro rfl
  exact absurd hc (by decide)

/-- An escaped name is read as the symbols of its characters, whatever follows it. -/
theorem symbols_escapeChars_append (s r : List Char) :
    symbols (escapeChars s ++ r) = s.map symbolOf ++ symbols r := by
  induction s with
  | nil => rfl
  | cons c s ih =>
      cases hc : isSpecial c with
      | true =>
          rw [escapeChars_cons_of_special hc, List.cons_append, List.cons_append, symbols, ih,
            List.map_cons, List.cons_append, symbolOf, hc]
      | false =>
          rw [escapeChars_cons_of_not_special hc, List.cons_append,
            symbols_cons_of_ne (ne_backslash_of_not_special hc), ih, List.map_cons, List.cons_append,
            symbolOf, hc]

theorem symbols_escapeChars (s : List Char) : symbols (escapeChars s) = s.map symbolOf := by
  have happend := symbols_escapeChars_append s []
  rwa [List.append_nil, symbols, List.append_nil] at happend

/-! ### Names in rules -/

/-- No symbol of an escaped name ends it. -/
theorem not_endsName_symbolOf (c : Char) : (symbolOf c).endsName = false := by
  by_cases hspace : c = ' '
  · rw [hspace]; rfl
  by_cases hcolon : c = ':'
  · rw [hcolon]; rfl
  simp [Symbol.endsName, symbolOf, hspace, hcolon]

/-- What may stand behind a name: a bare space or colon, and anything behind that. -/
def EndsName (later : List Char) : Prop := ∃ r, later = ' ' :: r ∨ later = ':' :: r

theorem takeWhile_symbols_of_endsName (h : EndsName later) :
    (symbols later).takeWhile (!·.endsName) = [] := by
  obtain ⟨r, rfl | rfl⟩ := h <;> rw [symbols_cons_of_ne (by decide)] <;> rfl

/-- A name is read off a rule in which no dot stands before it. -/
theorem nameText_append {rule name : String} (ho : '.' ∉ opening) (hl : EndsName later)
    (h : rule.toList = opening ++ '.' :: (escapeChars name.toList ++ later)) :
    nameText rule = escape name := by
  have hdot : ∀ c ∈ opening, decide (c ≠ '.') = true := by
    rintro c hc
    simpa using ne_of_mem_of_not_mem hc ho
  have hname : ∀ x ∈ name.toList.map symbolOf, (!x.endsName) = true := by
    intro x hx
    obtain ⟨c, -, rfl⟩ := List.mem_map.1 hx
    rw [not_endsName_symbolOf]
    rfl
  have hopening : (opening ++ '.' :: (escapeChars name.toList ++ later)).dropWhile (· ≠ '.') =
      '.' :: (escapeChars name.toList ++ later) := by
    rw [List.dropWhile_append_of_pos hdot]
    rfl
  rw [nameText, h, hopening, List.tail_cons, symbols_escapeChars_append,
    List.takeWhile_append_of_pos hname, takeWhile_symbols_of_endsName hl, List.append_nil,
    ← symbols_escapeChars, flatMap_chars_symbols]
  rfl

theorem unescape_escape (name : String) : unescape (escape name) = name := by
  rw [unescape, escape, String.toList_ofList, unescapeChars_escapeChars, String.ofList_toList]

end Selector

/-! ### Rules -/

namespace Compiler
open Selector

variable {c : Compiler} {token css : String}

theorem dot_not_mem_toString (n : Nat) : '.' ∉ (toString n).toList := by
  intro h
  rw [Nat.toString_eq_repr, Nat.repr_eq_ofList_toDigits, String.toList_ofList] at h
  exact absurd (Nat.isDigit_of_mem_toDigits (by decide) (by decide) h) (by decide)

/-- No dot stands in a media query. -/
theorem dot_not_mem_mediaQuery (width : Nat) (isMax : Bool) :
    '.' ∉ (mediaQuery width isMax).toList := by
  have hend : '.' ∉ ("px)" : String).toList := by decide
  cases isMax with
  | false =>
      have hmin : '.' ∉ ("@media (min-width: " : String).toList := by decide
      have hwidth := dot_not_mem_toString width
      rw [mediaQuery, if_neg Bool.false_ne_true, String.toList_append, String.toList_append,
        List.mem_append, List.mem_append, not_or, not_or]
      exact ⟨⟨hmin, hwidth⟩, hend⟩
  | true =>
      have hmax : '.' ∉ ("@media (max-width: " : String).toList := by decide
      have hbound : '.' ∉ (toString ((width : Int) - 1)).toList := by
        cases width with
        | zero => decide
        | succ n =>
            have hn : ((n + 1 : Nat) : Int) - 1 = (n : Int) := by omega
            rw [hn]
            exact dot_not_mem_toString n
      rw [mediaQuery, if_pos rfl, String.toList_append, String.toList_append,
        List.mem_append, List.mem_append, not_or, not_or]
      exact ⟨⟨hmax, hbound⟩, hend⟩

/-- The dot of a rule is its first character, and a bare space or colon follows the name. -/
theorem toList_ruleText (token : String) (pseudo : Option Pseudo) (css : String) :
    ∃ later, EndsName later ∧
      (ruleText token pseudo css).toList = '.' :: (escapeChars token.toList ++ later) := by
  have hdot : ("." : String).toList = ['.'] := rfl
  have hcolon : (":" : String).toList = [':'] := rfl
  have hbody : (" \x7b " : String).toList = ' ' :: "\x7b ".toList := rfl
  cases pseudo with
  | none =>
      refine ⟨' ' :: ("\x7b " ++ css ++ " \x7d").toList, ⟨_, .inl rfl⟩, ?_⟩
      simp only [ruleText, escape, String.toList_append, String.toList_ofList, hdot, hbody,
        List.append_assoc, List.cons_append, List.nil_append, String.toList_empty]
  | some p =>
      refine ⟨':' :: (p.name ++ " \x7b " ++ css ++ " \x7d").toList, ⟨_, .inr rfl⟩, ?_⟩
      simp only [ruleText, escape, String.toList_append, String.toList_ofList, hdot, hcolon,
        List.append_assoc, List.cons_append, List.nil_append]

/-- The first dot of a rule stands before the name, also if a media query stands around it. -/
theorem toList_wrap (c : Compiler) (token css : String) :
    ∃ opening later, '.' ∉ opening ∧ EndsName later ∧
      (c.wrap token css).toList = opening ++ '.' :: (escapeChars token.toList ++ later) := by
  obtain ⟨later, hl, hrule⟩ := toList_ruleText token (Token.parse c.breakpoints token).1.pseudo css
  cases hm : (Token.parse c.breakpoints token).1.media with
  | none => exact ⟨[], later, List.not_mem_nil, hl, by rw [wrap_of_media_none hm, hrule]; rfl⟩
  | some m =>
      obtain ⟨w, hw⟩ := Token.get?_of_media hm
      have hbrace : '.' ∉ (" \x7b\n  " : String).toList := by decide
      refine ⟨(mediaQuery w m.isMax ++ " \x7b\n  ").toList, later ++ ("\n\x7d" : String).toList,
        ?_, ?_, ?_⟩
      · rw [String.toList_append, List.mem_append, not_or]
        exact ⟨dot_not_mem_mediaQuery w m.isMax, hbrace⟩
      · obtain ⟨r, rfl | rfl⟩ := hl
        · exact ⟨_, .inl rfl⟩
        · exact ⟨_, .inr rfl⟩
      · rw [wrap_of_media hm hw, String.toList_append, String.toList_append, hrule, List.append_assoc,
          List.cons_append, List.append_assoc]

/-- The name in a rule is the escaped token. -/
theorem nameText_of_compile (h : (c.compile token .rule).css = some css) :
    nameText css = escape token := by
  rw [compile_css, Option.map_eq_some_iff] at h
  obtain ⟨body, -, rfl⟩ := h
  obtain ⟨opening, later, ho, hl, hrule⟩ := toList_wrap c token body
  exact nameText_append ho hl hrule

/-- **Rules tell tokens.**  A text is the row of its symbols as they are written, and what it escapes is
the row of their characters. Escaping is undone by this, and no special character of an escaped name
stands bare. Behind the first dot of a rule, up to a bare space or colon, stands the escaped token; so
the rules of two tokens differ. -/
theorem rules_tell_tokens :
    (∀ s : String, (symbols s.toList).flatMap Symbol.chars = s.toList ∧
      (symbols s.toList).map Symbol.char = (unescape s).toList) ∧
    (∀ name : String, unescape (escape name) = name ∧
      ∀ x ∈ symbols (escape name).toList, isSpecial x.char → x.escaped) ∧
    (∀ (c : Compiler) (token css : String), (c.compile token .rule).css = some css →
      nameText css = escape token ∧ unescape (nameText css) = token) ∧
    ∀ (c : Compiler) (token token' css css' : String), token ≠ token' →
      (c.compile token .rule).css = some css → (c.compile token' .rule).css = some css' →
      css ≠ css' := by
  have hread : ∀ (c : Compiler) (token css : String), (c.compile token .rule).css = some css →
      unescape (nameText css) = token := by
    intro c token css h
    rw [nameText_of_compile h, unescape_escape]
  refine ⟨fun s => ⟨flatMap_chars_symbols s.toList, ?_⟩, fun name => ⟨unescape_escape name, ?_⟩,
    fun c token css h => ⟨nameText_of_compile h, hread c token css h⟩, ?_⟩
  · rw [unescape, String.toList_ofList, map_char_symbols]
  · rw [escape, String.toList_ofList, symbols_escapeChars]
    intro x hx hspecial
    obtain ⟨ch, -, rfl⟩ := List.mem_map.1 hx
    exact hspecial
  · rintro c token token' css css' hne h h' rfl
    exact hne ((hread c token css h).symm.trans (hread c token' css h'))

/-- A token inside a media query and before a pseudo-class, and one with a space and a backslash. -/
theorem rules_tell_tokens_wrapped :
    let token := "max-md:hover:p-[4px]"
    let token' := "a b\\:p-[4px]"
    let css := "@media (max-width: 767px) \x7b\n  " ++ ".max-md\\:hover\\:p-\\[4px\\]:hover" ++
      " \x7b padding: 4px; \x7d\n\x7d"
    let css' := ".a\\ b\\\\\\:p-\\[4px\\] \x7b padding: 4px; \x7d"
    (default.compile token .rule).css = some css ∧ (default.compile token' .rule).css = some css' ∧
      unescape (nameText css) = token ∧ unescape (nameText css') = token' ∧ css ≠ css' := by
  intro token token' css css'
  have h : (default.compile token .rule).css = some css := by decide +kernel
  have h' : (default.compile token' .rule).css = some css' := by decide +kernel
  obtain ⟨-, -, hread, hdiffer⟩ := rules_tell_tokens
  exact ⟨h, h', (hread default token css h).2, (hread default token' css' h').2,
    hdiffer default token token' css css' (by decide) h h'⟩

end Compiler

end UtilityCss
