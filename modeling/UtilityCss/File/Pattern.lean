import UtilityCss.Text.Basic

/-!
# File name patterns

A pattern is read into tokens: `?` stands for one character, `*` for any number of them, characters
between brackets for one of a set, or with `!` for one outside it, and `**` for any number of
directories. `**` must be a whole component of a path. Case counts, and no character is special at the
head of a name.
-/

namespace UtilityCss

/-- Why a text is no pattern. -/
inductive PatternFault where
  /-- More than two `*` in a row. -/
  | wildcards
  /-- A `**` that is not a whole component. -/
  | recursive
  /-- A bracket that opens no set. -/
  | range
deriving DecidableEq, Repr

/-- What is wrong with a pattern, and at which character. -/
structure PatternError where
  position : Nat
  fault    : PatternFault
deriving DecidableEq, Repr

namespace PatternError

def reason : PatternFault → String
  | .wildcards => "wildcards are either regular `*` or recursive `**`"
  | .recursive => "recursive wildcards must form a single path component"
  | .range     => "invalid range pattern"

/-- The wording of an error. -/
def message (e : PatternError) : String :=
  "Pattern syntax error near position " ++ toString e.position ++ ": " ++ reason e.fault

end PatternError

/-- A part of a set of characters. -/
inductive CharSpan where
  | single (c : Char)
  | range (low high : Char)
deriving DecidableEq, Repr

namespace CharSpan

def holds (c : Char) : CharSpan → Bool
  | single a     => c = a
  | range lo hi  => lo ≤ c && c ≤ hi

/-- The spans of a text between brackets. A `-` between two characters makes a range. -/
def ofChars : List Char → List CharSpan
  | a :: '-' :: b :: s => range a b :: ofChars s
  | a :: s             => single a :: ofChars s
  | []                 => []

end CharSpan

/-- A token of a pattern. -/
inductive PatternToken where
  | char (c : Char)
  | anyChar
  | anyText
  | anyDirectories
  | within (set : List CharSpan)
  | without (set : List CharSpan)
deriving DecidableEq, Repr

namespace PatternToken

/-- The text up to the next `]`, and what follows it. -/
def untilBracket? (s : List Char) : Option (List Char × List Char) :=
  match s.dropWhile (· ≠ ']') with
  | _ :: rest => some (s.takeWhile (· ≠ ']'), rest)
  | []        => none

/-- A set of characters behind its opening bracket, and what follows it. A set is not empty, so a `]`
that comes first belongs to it. -/
def set? : List Char → Option (PatternToken × List Char)
  | '!' :: c :: s =>
    (untilBracket? s).map fun (set, rest) => (without (CharSpan.ofChars (c :: set)), rest)
  | '!' :: []     => none
  | c :: s        =>
    (untilBracket? s).map fun (set, rest) => (within (CharSpan.ofChars (c :: set)), rest)
  | []            => none

theorem length_lt_of_untilBracket? {s : List Char} {r : List Char × List Char}
    (h : untilBracket? s = some r) : r.2.length < s.length := by
  have hd := (List.dropWhile_suffix (· ≠ ']') (l := s)).length_le
  simp only [untilBracket?] at h
  split at h
  · rename_i hs
    cases h
    rw [hs, List.length_cons] at hd
    exact hd
  · cases h

theorem length_lt_of_set? {s : List Char} {r : PatternToken × List Char} (h : set? s = some r) :
    r.2.length < s.length := by
  unfold set? at h
  split at h
  · obtain ⟨p, hp, rfl⟩ := Option.map_eq_some_iff.1 h
    have := length_lt_of_untilBracket? hp
    simp only [List.length_cons]
    omega
  · cases h
  · obtain ⟨p, hp, rfl⟩ := Option.map_eq_some_iff.1 h
    have := length_lt_of_untilBracket? hp
    simp only [List.length_cons]
    omega
  · cases h

/-- The token for `stars` stars in a row, `position` being that of the first, `atStart` whether a
component starts there, and `rest` what follows. -/
def ofStars (stars position : Nat) (atStart : Bool) (rest : List Char) :
    Except PatternError PatternToken :=
  if 2 < stars then .error ⟨position + 2, .wildcards⟩
  else if stars < 2 then .ok anyText
  else if !atStart then .error ⟨position - 1, .recursive⟩
  else
    match rest with
    | [] | '/' :: _ => .ok anyDirectories
    | _             => .error ⟨position + 2, .recursive⟩

/-- The tokens of a pattern from a position on. -/
def scan (position : Nat) (atStart : Bool) (s : List Char) : Except PatternError (List PatternToken) :=
  match s with
  | []     => .ok []
  | '?' :: s => (scan (position + 1) false s).map (anyChar :: ·)
  | '*' :: s =>
    let more := s.takeWhile (· = '*')
    let rest := s.dropWhile (· = '*')
    match ofStars (more.length + 1) position atStart rest with
    | .error e => .error e
    | .ok t    => (scan (position + more.length + 1) false rest).map (t :: ·)
  | '[' :: s =>
    match _h : set? s with
    | some (t, rest) =>
      (scan (position + 1 + (s.length - rest.length)) false rest).map (t :: ·)
    | none           => .error ⟨position, .range⟩
  | c :: s => (scan (position + 1) (c = '/') s).map (char c :: ·)
termination_by s.length
decreasing_by
  · simp
  · exact Nat.lt_succ_of_le (List.dropWhile_suffix _).length_le
  · exact Nat.lt_succ_of_lt (length_lt_of_set? _h)
  · simp

end PatternToken

/-- A pattern for names. -/
structure Pattern where
  tokens : List PatternToken
deriving DecidableEq, Repr

namespace Pattern

/-- Reads a pattern. -/
def ofText (s : List Char) : Except PatternError Pattern :=
  (PatternToken.scan 0 true s).map (⟨·⟩)

/-- The only text that a pattern without wildcards matches. -/
def literal? (p : Pattern) : Option String :=
  (p.tokens.mapM char?).map String.ofList
where
  char? : PatternToken → Option Char
    | .char c => some c
    | _       => none

/-- Whether a pattern stands for directories at any depth. -/
def isRecursive (p : Pattern) : Bool := p.tokens.contains .anyDirectories

/-- Whether a test holds of some rest of a text. -/
def someRest (p : List Char → Bool) : List Char → Bool
  | []     => p []
  | c :: s => p (c :: s) || someRest p s

/-- Whether a text begins with a character of which a test holds, with a rest of which another
holds. -/
def firstThen (holds : Char → Bool) (p : List Char → Bool) : List Char → Bool
  | []     => false
  | c :: s => holds c && p s

/-- Whether tokens match a text. -/
def matchesChars : List PatternToken → List Char → Bool
  | []                    => List.isEmpty
  | .char a :: ts         => firstThen (a = ·) (matchesChars ts)
  | .anyChar :: ts        => firstThen (fun _ => true) (matchesChars ts)
  | .within set :: ts     => firstThen (fun c => set.any (·.holds c)) (matchesChars ts)
  | .without set :: ts    => firstThen (fun c => !set.any (·.holds c)) (matchesChars ts)
  | .anyText :: ts        => someRest (matchesChars ts)
  | .anyDirectories :: ts => someRest (matchesChars ts)

/-- Whether a pattern matches a name. -/
def isMatch (p : Pattern) (name : String) : Bool := matchesChars p.tokens name.toList

/-- Whether a pattern begins with a dot that is written out. -/
def beginsWithDot (p : Pattern) : Bool := p.tokens.head? = some (.char '.')

end Pattern

end UtilityCss
