import UtilityCss.Text.Blank

/-!
# Class attributes

A class attribute is `class`, `=` and a text between quotes, with blanks allowed around the `=`. The
quotes may be single or double and need not agree; the text holds no quote and is not empty. Class
attributes are found wherever they stand in a document, from left to right.
-/

namespace UtilityCss.Markup
open Text

def isQuote (c : Char) : Bool := c = '"' || c = '\''

/-- What follows `=` and a quote, with blanks before each. -/
def openValue? (s : List Char) : Option (List Char) :=
  match s.dropWhile isBlank with
  | '=' :: s =>
    match s.dropWhile isBlank with
    | q :: s => if isQuote q then some s else none
    | []     => none
  | _ => none

/-- The value of a class attribute at the head of a text, and what follows it. -/
def classAttribute? (s : List Char) : Option (List Char × List Char) :=
  match (dropPrefix? "class".toList s).bind openValue? with
  | none   => none
  | some s =>
    match s.takeWhile (!isQuote ·), s.dropWhile (!isQuote ·) with
    | _ :: _, _ :: rest => some (s.takeWhile (!isQuote ·), rest)
    | _,      _         => none

theorem length_dropWhile_le {p : Char → Bool} (s : List Char) : (s.dropWhile p).length ≤ s.length :=
  (List.dropWhile_suffix p).length_le

theorem length_le_of_openValue? {s r : List Char} (h : openValue? s = some r) :
    r.length ≤ s.length := by
  have h₁ := length_dropWhile_le (p := isBlank) s
  unfold openValue? at h
  split at h
  · rename_i t ht
    have h₂ := length_dropWhile_le (p := isBlank) t
    rw [ht] at h₁
    split at h
    · rename_i hu
      rw [hu] at h₂
      split at h
      · cases h
        simp only [List.length_cons] at h₁ h₂
        omega
      · cases h
    · cases h
  · cases h

theorem length_lt_of_classAttribute? {s v r : List Char} (h : classAttribute? s = some (v, r)) :
    r.length < s.length := by
  unfold classAttribute? at h
  split at h
  · cases h
  · rename_i t ht
    obtain ⟨u, hu, ht⟩ := Option.bind_eq_some_iff.1 ht
    have h₁ := length_of_dropPrefix? hu
    have h₂ := length_le_of_openValue? ht
    split at h
    · rename_i hd
      have h₃ := length_dropWhile_le (p := (!isQuote ·)) t
      cases h
      rw [hd] at h₃
      simp only [List.length_cons] at h₃
      omega
    · cases h

/-- The values of the class attributes of a document. -/
def classValues : List Char → List (List Char)
  | []     => []
  | c :: s =>
    match _h : classAttribute? (c :: s) with
    | some (v, r) => v :: classValues r
    | none        => classValues s
termination_by s => s.length
decreasing_by
  · exact length_lt_of_classAttribute? _h
  · simp

/-- The class tokens of a document: the words of its class attributes. -/
def classTokens (document : String) : List String :=
  (classValues document.toList).flatMap fun v => words (String.ofList v)

end UtilityCss.Markup
