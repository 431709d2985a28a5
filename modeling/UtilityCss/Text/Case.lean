/-!
# Letter case

Two places ignore the case of letters. Color and border values are lowered before they are matched
against grammars in which every letter is ASCII, and tags are found in markup by texts in which every
letter is ASCII. Both need only the characters whose other case is an ASCII letter: the ASCII letters
themselves, the Kelvin sign, whose lower case is `k`, and the long s, which matches `s` when case is
ignored but is lower case already.
-/

namespace UtilityCss.Text

/-- The lower case of a character, as far as it is an ASCII letter. -/
def lowerChar (c : Char) : Char :=
  if 'A' ≤ c ∧ c ≤ 'Z' then Char.ofNat (c.toNat + 0x20)
  else if c.toNat = 0x212A then 'k'
  else c

/-- A text in lower case, as far as grammars over ASCII letters can tell. -/
def lower (s : List Char) : List Char :=
  s.map lowerChar

/-- Whether `c` is the lower-case ASCII character `p` when case is ignored. -/
def matchesLower (p c : Char) : Bool :=
  lowerChar c = p || (p = 's' && c.toNat = 0x17F)

/-- What follows `p`, written in lower case, at the head of a text whose case is ignored. -/
def dropPrefixLower? : List Char → List Char → Option (List Char)
  | [],     s      => some s
  | _ :: _, []     => none
  | a :: p, b :: s => if matchesLower a b then dropPrefixLower? p s else none

theorem length_of_dropPrefixLower? {p s r : List Char} (h : dropPrefixLower? p s = some r) :
    s.length = p.length + r.length := by
  induction p generalizing s with
  | nil => simp only [dropPrefixLower?, Option.some.injEq] at h; simp [h]
  | cons a p ih =>
    cases s with
    | nil => simp [dropPrefixLower?] at h
    | cons b s =>
      simp only [dropPrefixLower?] at h
      split at h
      · have := ih h
        simp only [List.length_cons]
        omega
      · simp at h

theorem suffix_of_dropPrefixLower? {p s r : List Char} (h : dropPrefixLower? p s = some r) :
    r <:+ s := by
  induction p generalizing s with
  | nil => simp only [dropPrefixLower?, Option.some.injEq] at h; simp [h]
  | cons a p ih =>
    cases s with
    | nil => simp [dropPrefixLower?] at h
    | cons b s =>
      simp only [dropPrefixLower?] at h
      split at h
      · exact (ih h).trans (List.suffix_cons b s)
      · simp at h

/-- What follows the first occurrence of `p`, written in lower case, case ignored. -/
def afterLower? (p : List Char) : List Char → Option (List Char)
  | []     => if p = [] then some [] else none
  | c :: s =>
    match dropPrefixLower? p (c :: s) with
    | some r => some r
    | none   => afterLower? p s

theorem suffix_of_afterLower? {p s r : List Char} (h : afterLower? p s = some r) : r <:+ s := by
  induction s with
  | nil => simp only [afterLower?] at h; split at h <;> simp_all
  | cons c s ih =>
    simp only [afterLower?] at h
    split at h
    · rename_i r' hr
      cases h
      exact suffix_of_dropPrefixLower? hr
    · exact (ih h).trans (List.suffix_cons c s)

/-- The text before the first occurrence of `p` and the text from there on, case ignored. -/
def splitBeforeLower? (p : List Char) : List Char → Option (List Char × List Char)
  | []     => if p = [] then some ([], []) else none
  | c :: s =>
    if (dropPrefixLower? p (c :: s)).isSome then some ([], c :: s)
    else (splitBeforeLower? p s).map fun r => (c :: r.1, r.2)

end UtilityCss.Text
