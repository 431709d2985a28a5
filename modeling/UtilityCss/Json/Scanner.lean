import UtilityCss.Json.Number

/-!
# Scanning JSON

The parts of JSON that hold no others: blanks, the three words, and strings. A string is read, with
its escapes replaced and its surrogates paired, or passed over, in which case only the form of its
escapes matters.
-/

namespace UtilityCss.Json
open Text

/-- Whether a character may stand between the parts of a text. -/
def isSpace (c : Char) : Bool := c = ' ' || c = '\n' || c = '\t' || c = '\r'

def skipSpace (s : List Char) : List Char := s.dropWhile isSpace

theorem length_skipSpace_le (s : List Char) : (skipSpace s).length ≤ s.length :=
  (List.dropWhile_suffix _).length_le

/-- What follows the rest `w` of a word whose first letter has been read. -/
def word : List Char → List Char → Except Error (List Char)
  | [],     s      => .ok s
  | _ :: _, []     => .error .valueEnds
  | a :: w, b :: s => if a = b then word w s else .error .expectedWord

theorem length_le_of_word {w s r : List Char} (h : word w s = .ok r) : r.length ≤ s.length := by
  induction w generalizing s with
  | nil => cases h; exact Nat.le_refl _
  | cons a w ih =>
    cases s with
    | nil => cases h
    | cons b s =>
      simp only [word] at h
      split at h
      · exact Nat.le_succ_of_le (ih h)
      · cases h

/-! ### Escapes -/

/-- The value of four hexadecimal digits at the head of a text, and what follows them. A text that
ends within four bytes is a string that ends. -/
def hex4 (s : List Char) : Except Error (Nat × List Char) :=
  match s with
  | a :: b :: c :: d :: r =>
    match [a, b, c, d].mapM hexValue? with
    | some ds => .ok (ds.foldl (fun n d => 16 * n + d) 0, r)
    | none    => .error .invalidEscape
  | _ => .error (if (String.ofList s).utf8ByteSize < 4 then .stringEnds else .invalidEscape)

theorem length_of_hex4 {s r : List Char} {n : Nat} (h : hex4 s = .ok (n, r)) :
    r.length < s.length := by
  simp only [hex4] at h
  split at h
  · split at h
    · cases h; simp only [List.length_cons]; omega
    · cases h
  · cases h

def isLowSurrogate (n : Nat) : Bool := 0xDC00 ≤ n && n ≤ 0xDFFF

def isHighSurrogate (n : Nat) : Bool := 0xD800 ≤ n && n ≤ 0xDBFF

/-- The character of a surrogate pair. -/
def pairSurrogates (high low : Nat) : Char :=
  Char.ofNat (0x10000 + (high - 0xD800) * 0x400 + (low - 0xDC00))

/-- Reads the low half of a surrogate pair, whose high half is `n`. -/
def lowSurrogate (n : Nat) (s : List Char) : Except Error (Char × List Char) :=
  match s with
  | '\\' :: 'u' :: r =>
    match hex4 r with
    | .error e    => .error e
    | .ok (m, r') =>
      if isLowSurrogate m then .ok (pairSurrogates n m, r') else .error .loneSurrogate
  | [] | ['\\'] => .error .stringEnds
  | _           => .error .unpairedSurrogate

/-- Reads the character of an escape that begins with `u`. -/
def unicodeEscape (s : List Char) : Except Error (Char × List Char) :=
  match hex4 s with
  | .error e   => .error e
  | .ok (n, r) =>
    if isLowSurrogate n then .error .loneSurrogate
    else if isHighSurrogate n then lowSurrogate n r
    else .ok (Char.ofNat n, r)

/-- The character that a letter behind a backslash stands for. -/
def shortEscape? (c : Char) : Option Char :=
  match c with
  | '"' | '\\' | '/' => some c
  | 'b' => some '\x08'
  | 'f' => some '\x0c'
  | 'n' => some '\n'
  | 'r' => some '\r'
  | 't' => some '\t'
  | _   => none

/-- Reads the character of an escape, `s` being what follows the backslash. -/
def escaped (s : List Char) : Except Error (Char × List Char) :=
  match s with
  | []       => .error .stringEnds
  | 'u' :: r => unicodeEscape r
  | c :: r   =>
    match shortEscape? c with
    | some d => .ok (d, r)
    | none   => .error .invalidEscape

/-- What follows an escape of the right form, `s` being what follows the backslash. -/
def skipEscaped (s : List Char) : Except Error (List Char) :=
  match s with
  | []       => .error .stringEnds
  | 'u' :: r => (·.2) <$> hex4 r
  | c :: r   => if (shortEscape? c).isSome then .ok r else .error .invalidEscape

theorem length_lt_of_lowSurrogate {n : Nat} {s r : List Char} {c : Char}
    (h : lowSurrogate n s = .ok (c, r)) : r.length < s.length := by
  simp only [lowSurrogate] at h
  split at h
  · split at h
    · cases h
    · rename_i hm
      have := length_of_hex4 hm
      split at h
      · rw [Except.ok.injEq, Prod.mk.injEq] at h
        simp only [List.length_cons, ← h.2]
        omega
      · cases h
  · cases h
  · cases h
  · cases h

theorem length_lt_of_unicodeEscape {s r : List Char} {c : Char}
    (h : unicodeEscape s = .ok (c, r)) : r.length < s.length := by
  simp only [unicodeEscape] at h
  split at h
  · cases h
  · rename_i hn
    have := length_of_hex4 hn
    split at h
    · cases h
    · split at h
      · have := length_lt_of_lowSurrogate h
        omega
      · rw [Except.ok.injEq, Prod.mk.injEq] at h
        exact h.2 ▸ this

theorem length_lt_of_escaped {s r : List Char} {c : Char} (h : escaped s = .ok (c, r)) :
    r.length < s.length := by
  simp only [escaped] at h
  split at h
  · cases h
  · exact Nat.lt_succ_of_lt (length_lt_of_unicodeEscape h)
  · split at h
    · cases h
      simp
    · cases h

theorem length_lt_of_skipEscaped {s r : List Char} (h : skipEscaped s = .ok r) :
    r.length < s.length := by
  simp only [skipEscaped] at h
  split at h
  · cases h
  · obtain ⟨⟨n, r'⟩, hn, h⟩ := ok_of_map h
    cases h
    exact Nat.lt_succ_of_lt (length_of_hex4 hn)
  · split at h
    · cases h
      simp
    · cases h

/-! ### Strings -/

/-- Reads a string after its first quote: its characters, and what follows its last quote. -/
def stringFrom : List Char → Except Error (List Char × List Char)
  | []        => .error .stringEnds
  | '"' :: s  => .ok ([], s)
  | '\\' :: s =>
    match _h : escaped s with
    | .error e    => .error e
    | .ok (c, s') => (fun p => (c :: p.1, p.2)) <$> stringFrom s'
  | c :: s    =>
    if c.toNat < 0x20 then .error .controlCharacter
    else (fun p => (c :: p.1, p.2)) <$> stringFrom s
termination_by s => s.length
decreasing_by
  · exact Nat.lt_succ_of_lt (length_lt_of_escaped _h)
  · simp

/-- What follows a string, after its first quote. -/
def skipString : List Char → Except Error (List Char)
  | []        => .error .stringEnds
  | '"' :: s  => .ok s
  | '\\' :: s =>
    match _h : skipEscaped s with
    | .error e => .error e
    | .ok s'   => skipString s'
  | c :: s    => if c.toNat < 0x20 then .error .controlCharacter else skipString s
termination_by s => s.length
decreasing_by
  · exact Nat.lt_succ_of_lt (length_lt_of_skipEscaped _h)
  · simp

theorem length_lt_of_stringFrom {s t r : List Char} (h : stringFrom s = .ok (t, r)) :
    r.length < s.length := by
  fun_induction stringFrom s generalizing t with
  | case1 => cases h
  | case2 s => cases h; simp
  | case3 s e he => cases h
  | case4 s c s' he ih =>
    obtain ⟨p, hp, h⟩ := ok_of_map h
    have := length_lt_of_escaped he
    cases h
    have := ih hp
    simp only [List.length_cons]
    omega
  | case5 c s h₁ h₂ hc => cases h
  | case6 c s h₁ h₂ hc ih =>
    obtain ⟨p, hp, h⟩ := ok_of_map h
    cases h
    exact Nat.lt_succ_of_lt (ih hp)

theorem length_lt_of_skipString {s r : List Char} (h : skipString s = .ok r) :
    r.length < s.length := by
  fun_induction skipString s with
  | case1 => cases h
  | case2 s => cases h; simp
  | case3 s e he => cases h
  | case4 s s' he ih =>
    have := length_lt_of_skipEscaped he
    have := ih h
    simp only [List.length_cons]
    omega
  | case5 c s h₁ h₂ hc => cases h
  | case6 c s h₁ h₂ hc ih => exact Nat.lt_succ_of_lt (ih h)

end UtilityCss.Json
