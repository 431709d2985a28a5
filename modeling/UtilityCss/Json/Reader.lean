import UtilityCss.Json.Scanner
import UtilityCss.OrderedMap

/-!
# Reading JSON

A reader takes one value off the head of a text. It knows what it asks for, so a value of another
shape is refused as soon as its kind is seen, and what follows in the text is not looked at. Arrays
and objects are read by `elements` and `members`, which hand each part to a reader of its own; a
value that nobody asked for is passed over by `ignored`.

A reader consumes at least one character, and says so with its result, so reading ends. Brackets may
be nested only `maxDepth` deep, except in values that are passed over.
-/

namespace UtilityCss.Json
open Text

/-- A value read off the head of `s`, and what follows it. -/
structure Read (s : List Char) (α : Type) where
  value   : α
  rest    : List Char
  /-- A value is not empty. -/
  shorter : rest.length < s.length

/-- A reader of one value. -/
abbrev Reader (α : Type) := (s : List Char) → Except Error (Read s α)

variable {α β σ : Type}

def Read.map {s : List Char} (f : α → β) (r : Read s α) : Read s β :=
  ⟨f r.value, r.rest, r.shorter⟩

/-- The same value, read off a longer text. -/
def Read.widen {s t : List Char} (r : Read s α) (h : s.length ≤ t.length) : Read t α :=
  ⟨r.value, r.rest, Nat.lt_of_lt_of_le r.shorter h⟩

/-- A reader whose result is changed by `f`. -/
def Reader.map (f : α → β) (read : Reader α) : Reader β := fun s => (read s).map (·.map f)

/-- The levels of brackets that a text may have. -/
def maxDepth : Nat := 127

/-- A reader of what stands one level deeper. -/
def deeper (depth : Nat) (read : Nat → Reader α) : Reader α :=
  match depth with
  | 0     => fun _ => .error .tooDeep
  | d + 1 => read d

/-! ### Values of the wrong shape -/

/-- The cause for a value of the wrong shape, from the text at which it begins. -/
def unexpected (wanted : Shape) (s : List Char) : Error :=
  let afterWord (w : String) (f : Found) (r : List Char) : Error :=
    match word w.toList r with
    | .ok _    => .wrongShape f wanted
    | .error e => e
  let number (negative : Bool) (r : List Char) : Error :=
    match numeral negative r with
    | .ok (.int n, _)  => .wrongShape (.int n) wanted
    | .ok (.real x, _) => .wrongShape (.real x) wanted
    | .ok _            => .expectedValue
    | .error e         => e
  match s with
  | []       => .valueEnds
  | 'n' :: r => afterWord "ull" .null r
  | 't' :: r => afterWord "rue" (.bool true) r
  | 'f' :: r => afterWord "alse" (.bool false) r
  | '-' :: r => number true r
  | '"' :: r =>
    match stringFrom r with
    | .ok (t, _) => .wrongShape (.string (String.ofList t)) wanted
    | .error e   => e
  | '[' :: _ => .wrongShape .sequence wanted
  | '\x7b' :: _ => .wrongShape .map wanted
  | c :: r   => if c.isDigit then number false (c :: r) else .expectedValue

/-! ### Scalars -/

/-- Reads a string. -/
def Reader.string : Reader String := fun s =>
  match _hs : skipSpace s with
  | '"' :: r =>
    match h : stringFrom r with
    | .error e   => .error e
    | .ok (t, r') => .ok ⟨String.ofList t, r', by
        have := length_lt_of_stringFrom h
        have := length_skipSpace_le s
        simp only [_hs, List.length_cons] at this
        omega⟩
  | t => .error (unexpected .string t)

/-- Reads `null`. -/
def Reader.unit : Reader Unit := fun s =>
  match _hs : skipSpace s with
  | 'n' :: r =>
    match h : word "ull".toList r with
    | .error e => .error e
    | .ok r'   => .ok ⟨(), r', by
        have := length_le_of_word h
        have := length_skipSpace_le s
        simp only [_hs, List.length_cons] at this
        omega⟩
  | t => .error (unexpected .unit t)

/-- Passes a scalar, from the text at which it begins. A numeral needs only the right form. -/
def skipScalar (s : List Char) : Except Error (List Char) :=
  match s with
  | []       => .error .valueEnds
  | 'n' :: r => word "ull".toList r
  | 't' :: r => word "rue".toList r
  | 'f' :: r => word "alse".toList r
  | '"' :: r => skipString r
  | '-' :: r => skipNumeral r
  | c :: r   => if c.isDigit then skipNumeral (c :: r) else .error .expectedValue
where
  /-- Digits, of which there must be one. -/
  skipDigits (s : List Char) : Except Error (List Char) :=
    match s with
    | c :: r => if c.isDigit then .ok (r.dropWhile Char.isDigit) else .error .invalidNumber
    | []     => .error .invalidNumber
  skipExponent (s : List Char) : Except Error (List Char) :=
    match s with
    | 'e' :: r | 'E' :: r => skipDigits (splitSign r).2
    | _                   => .ok s
  skipFraction (s : List Char) : Except Error (List Char) :=
    match s with
    | '.' :: r =>
      match skipDigits r with
      | .ok r'   => skipExponent r'
      | .error e => .error e
    | _ => skipExponent s
  skipNumeral (s : List Char) : Except Error (List Char) :=
    match s with
    | '0' :: c :: r => if c.isDigit then .error .invalidNumber else skipFraction (c :: r)
    | _ =>
      match skipDigits s with
      | .ok r    => skipFraction r
      | .error e => .error e

theorem length_lt_of_skipDigits {s r : List Char} (h : skipScalar.skipDigits s = .ok r) :
    r.length < s.length := by
  simp only [skipScalar.skipDigits] at h
  split at h
  · split at h
    · cases h
      exact Nat.lt_succ_of_le (List.dropWhile_suffix _).length_le
    · cases h
  · cases h

theorem length_le_of_skipExponent {s r : List Char} (h : skipScalar.skipExponent s = .ok r) :
    r.length ≤ s.length := by
  simp only [skipScalar.skipExponent] at h
  split at h
  · rename_i t
    have := length_lt_of_skipDigits h
    have := length_splitSign_le t
    simp only [List.length_cons]
    omega
  · rename_i t
    have := length_lt_of_skipDigits h
    have := length_splitSign_le t
    simp only [List.length_cons]
    omega
  · cases h
    exact Nat.le_refl _

theorem length_le_of_skipFraction {s r : List Char} (h : skipScalar.skipFraction s = .ok r) :
    r.length ≤ s.length := by
  simp only [skipScalar.skipFraction] at h
  split at h
  · split at h
    · rename_i hd
      have := length_lt_of_skipDigits hd
      have := length_le_of_skipExponent h
      simp only [List.length_cons]
      omega
    · cases h
  · exact length_le_of_skipExponent h

theorem length_lt_of_skipNumeral {s r : List Char} (h : skipScalar.skipNumeral s = .ok r) :
    r.length < s.length := by
  simp only [skipScalar.skipNumeral] at h
  split at h
  · split at h
    · cases h
    · have := length_le_of_skipFraction h
      simp only [List.length_cons] at this ⊢
      omega
  · split at h
    · rename_i hd
      have := length_lt_of_skipDigits hd
      have := length_le_of_skipFraction h
      omega
    · cases h

theorem length_lt_of_skipScalar {s r : List Char} (h : skipScalar s = .ok r) :
    r.length < s.length := by
  simp only [skipScalar] at h
  split at h
  · cases h
  · exact Nat.lt_succ_of_le (length_le_of_word h)
  · exact Nat.lt_succ_of_le (length_le_of_word h)
  · exact Nat.lt_succ_of_le (length_le_of_word h)
  · exact Nat.lt_succ_of_lt (length_lt_of_skipString h)
  · exact Nat.lt_succ_of_lt (length_lt_of_skipNumeral h)
  · split at h
    · exact length_lt_of_skipNumeral h
    · cases h

/-! ### Values that nobody asked for -/

/-- What follows a key with its colon, from behind the first quote of the key. -/
def skipKey (s : List Char) : Except Error (List Char) :=
  match skipString s with
  | .error e => .error e
  | .ok r    =>
    match skipSpace r with
    | ':' :: r => .ok r
    | []       => .error .objectEnds
    | _        => .error .expectedColon

theorem length_lt_of_skipKey {s r : List Char} (h : skipKey s = .ok r) : r.length < s.length := by
  simp only [skipKey] at h
  split at h
  · cases h
  · rename_i t ht
    have h₁ := length_lt_of_skipString ht
    have h₂ := length_skipSpace_le t
    split at h
    · rename_i e
      cases h
      simp only [e, List.length_cons] at h₂
      omega
    · cases h
    · cases h

/-- What may come next in a value that is passed over. -/
inductive Expecting where
  /-- A value. -/
  | value
  /-- A key of an object. -/
  | key
  /-- The end of an array or an object whose first part has not come yet, or that part. -/
  | firstPart
  /-- The end of a bracket, or a comma. -/
  | nextPart
deriving DecidableEq

/-- A bracket that is open. -/
inductive Bracket where
  | array | object
deriving DecidableEq

def Bracket.ends : Bracket → Error
  | array  => .listEnds
  | object => .objectEnds

def Bracket.expectedEnd : Bracket → Error
  | array  => .expectedListEnd
  | object => .expectedObjectEnd

def Bracket.closer : Bracket → Char
  | array  => ']'
  | object => '\x7d'

/-- What follows a value that has begun, `opened` being the brackets that are open, the innermost
first. -/
def skipFrom (expecting : Expecting) (opened : List Bracket) (s : List Char) :
    Except Error (List Char) :=
  match opened, expecting with
  | [], .nextPart => .ok s
  | _, .value =>
    match _hs : skipSpace s with
    | '[' :: r    => skipFrom .firstPart (.array :: opened) r
    | '\x7b' :: r => skipFrom .firstPart (.object :: opened) r
    | t =>
      match _h : skipScalar t with
      | .ok r    => skipFrom .nextPart opened r
      | .error e => .error e
  | _, .key =>
    match _hs : skipSpace s with
    | '"' :: r =>
      match _h : skipKey r with
      | .ok r'   => skipFrom .value opened r'
      | .error e => .error e
    | []       => .error .objectEnds
    | _        => .error .keyNotString
  | [], .firstPart => .ok s
  | b :: outer, .firstPart =>
    match _hs : skipSpace s with
    | []     => .error b.ends
    | c :: r =>
      if c = b.closer then skipFrom .nextPart outer r
      else skipFrom (if b = .array then .value else .key) (b :: outer) s
  | b :: outer, .nextPart =>
    match _hs : skipSpace s with
    | []     => .error b.ends
    | c :: r =>
      if c = ',' then skipFrom (if b = .array then .value else .key) (b :: outer) r
      else if c = b.closer then skipFrom .nextPart outer r
      else .error b.expectedEnd
termination_by (s.length, if expecting = .firstPart then 1 else 0)
decreasing_by
  all_goals have hle := length_skipSpace_le s
  · simp only [_hs, List.length_cons] at hle
    exact Prod.Lex.left _ _ (by omega)
  · simp only [_hs, List.length_cons] at hle
    exact Prod.Lex.left _ _ (by omega)
  · have := length_lt_of_skipScalar _h
    rw [_hs] at hle
    exact Prod.Lex.left _ _ (by omega)
  · have := length_lt_of_skipKey _h
    simp only [_hs, List.length_cons] at hle
    exact Prod.Lex.left _ _ (by omega)
  · simp only [_hs, List.length_cons] at hle
    exact Prod.Lex.left _ _ (by omega)
  · refine Prod.Lex.right _ ?_
    split <;> simp
  · simp only [_hs, List.length_cons] at hle
    exact Prod.Lex.left _ _ (by omega)
  · simp only [_hs, List.length_cons] at hle
    exact Prod.Lex.left _ _ (by omega)

theorem length_le_of_skipFrom {e : Expecting} {opened : List Bracket} {s r : List Char}
    (h : skipFrom e opened s = .ok r) : r.length ≤ s.length := by
  fun_induction skipFrom e opened s <;>
    grind [length_skipSpace_le, → length_lt_of_skipScalar, → length_lt_of_skipKey]

theorem length_lt_of_skipFrom_value {opened : List Bracket} {s r : List Char}
    (h : skipFrom .value opened s = .ok r) : r.length < s.length := by
  have hle := length_skipSpace_le s
  rw [skipFrom] at h
  split at h
  · have := length_le_of_skipFrom h
    grind
  · have := length_le_of_skipFrom h
    grind
  · split at h
    · have := length_le_of_skipFrom h
      grind [→ length_lt_of_skipScalar]
    · cases h

/-- Passes over a value. -/
def Reader.ignored : Reader Unit := fun s =>
  match h : skipFrom .value [] s with
  | .ok r    => .ok ⟨(), r, length_lt_of_skipFrom_value h⟩
  | .error e => .error e

/-! ### Arrays and objects -/

/-- Reads elements up to the end of an array. `next` says how the next one is read and what the
state is after it, or that no more are wanted, in which case none may follow. -/
def elements (next : σ → Option (Reader σ)) (first : Bool) (state : σ) (s : List Char) :
    Except Error (Read s σ) :=
  match hs : skipSpace s with
  | []       => .error .listEnds
  | c :: r   =>
    have hr : r.length < s.length := by
      have := length_skipSpace_le s
      simp only [hs, List.length_cons] at this
      omega
    if c = ']' then .ok ⟨state, r, hr⟩
    else match next state with
    | none => .error (endError c r)
    | some read =>
      if first then
        match read s with
        | .error e => .error e
        | .ok p    => (elements next false p.value p.rest).map (·.widen (Nat.le_of_lt p.shorter))
      else if c = ',' then
        match skipSpace r with
        | []       => .error .valueEnds
        | ']' :: _ => .error .trailingComma
        | _        =>
          match read r with
          | .error e => .error e
          | .ok p    =>
            (elements next false p.value p.rest).map
              (·.widen (Nat.le_of_lt (Nat.lt_trans p.shorter hr)))
      else .error .expectedListEnd
termination_by s.length
decreasing_by
  · exact p.shorter
  · exact Nat.lt_trans p.shorter hr
where
  /-- The cause for elements beyond the last one that is wanted. -/
  endError (c : Char) (r : List Char) : Error :=
    if c = ',' ∧ (skipSpace r).head? = some ']' then .trailingComma else .trailingCharacters

/-- What follows the first quote of a key, from the character `c` that does not end the object. -/
def keyStart (first : Bool) (c : Char) (r : List Char) : Except Error (List Char) :=
  if first then (if c = '"' then .ok r else .error .keyNotString)
  else if c = ',' then
    match skipSpace r with
    | []          => .error .valueEnds
    | '"' :: t    => .ok t
    | '\x7d' :: _ => .error .trailingComma
    | _           => .error .keyNotString
  else .error .expectedObjectEnd

theorem length_le_of_keyStart {first : Bool} {c : Char} {r t : List Char}
    (h : keyStart first c r = .ok t) : t.length ≤ r.length := by
  have := length_skipSpace_le r
  grind [keyStart]

/-- Reads the members of an object up to its end. `member` says how the value of a key is read and
what the state is after it, or refuses the key. -/
def members (member : σ → String → Except Error (Reader σ)) (first : Bool) (state : σ)
    (s : List Char) : Except Error (Read s σ) :=
  match hs : skipSpace s with
  | []     => .error .objectEnds
  | c :: r =>
    have hr : r.length < s.length := by
      have := length_skipSpace_le s
      simp only [hs, List.length_cons] at this
      omega
    if c = '\x7d' then .ok ⟨state, r, hr⟩
    else
      match _hk : keyStart first c r with
      | .error e => .error e
      | .ok t    =>
        match _ht : stringFrom t with
        | .error e     => .error e
        | .ok (key, u) =>
          match member state (String.ofList key) with
          | .error e => .error e
          | .ok read =>
            match _hu : skipSpace u with
            | []       => .error .objectEnds
            | ':' :: v =>
              match read v with
              | .error e => .error e
              | .ok p    =>
                have hp : p.rest.length < s.length := by
                  have h₁ := length_le_of_keyStart _hk
                  have h₂ := length_lt_of_stringFrom _ht
                  have h₃ := length_skipSpace_le u
                  have h₄ := p.shorter
                  simp only [_hu, List.length_cons] at h₃
                  omega
                (members member false p.value p.rest).map (·.widen (Nat.le_of_lt hp))
            | _ => .error .expectedColon
termination_by s.length
decreasing_by exact hp

end UtilityCss.Json
