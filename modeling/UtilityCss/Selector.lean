/-!
# Class selectors

A class name becomes a selector by a backslash before each character that has a meaning of its own in
a selector. All of these are ASCII.
-/

namespace UtilityCss.Selector

/-- Whether a character has a meaning of its own in a selector. -/
def isSpecial (c : Char) : Bool :=
  " !\"#$%&'()*+,./:;<=>?@[\\]^`\x7b|\x7d~".toList.contains c

/-- The characters of an escaped name. -/
def escapeChars : List Char → List Char
  | []     => []
  | c :: s => if isSpecial c then '\\' :: c :: escapeChars s else c :: escapeChars s

/-- The name of a class as it stands in a selector, after the dot. -/
def escape (name : String) : String :=
  String.ofList (escapeChars name.toList)

/-- The characters of a name that was escaped. -/
def unescapeChars : List Char → List Char
  | []             => []
  | '\\' :: c :: s => c :: unescapeChars s
  | c :: s         => c :: unescapeChars s

theorem unescapeChars_escapeChars (s : List Char) : unescapeChars (escapeChars s) = s := by
  induction s with
  | nil => rfl
  | cons c s ih =>
    simp only [escapeChars]
    split
    · simp [unescapeChars, ih]
    · rename_i h
      have : c ≠ '\\' := by rintro rfl; exact h (by decide)
      rw [unescapeChars]
      · rw [ih]
      · rintro c' s' rfl
        simp at this

end UtilityCss.Selector
