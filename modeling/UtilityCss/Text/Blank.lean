import UtilityCss.Text.Basic

/-!
# Blank characters

The characters with the Unicode property White_Space, and what is read off them: a text without the
blanks around it, and the words of a text, which are its longest runs of other characters.

The main statement is `not_isBlank_of_mem_words`: no word holds a blank.
-/

namespace UtilityCss.Text

/-- Whether a character has the property White_Space. -/
def isBlank (c : Char) : Bool :=
  let n := c.toNat
  if n < 0x80 then n = 0x20 || (0x09 ≤ n && n ≤ 0x0D)
  else n = 0x85 || n = 0xA0 || n = 0x1680 || (0x2000 ≤ n && n ≤ 0x200A) || n = 0x2028 ||
    n = 0x2029 || n = 0x202F || n = 0x205F || n = 0x3000

/-- The text without the blanks at either end. -/
def trim (s : List Char) : List Char :=
  ((s.dropWhile isBlank).reverse.dropWhile isBlank).reverse

/-- The words of a text, `w` being the part of the current word that has been read, last first. -/
def wordsFrom (w : List Char) : List Char → List (List Char)
  | []     => if w = [] then [] else [w.reverse]
  | c :: s =>
    if isBlank c then
      if w = [] then wordsFrom [] s else w.reverse :: wordsFrom [] s
    else wordsFrom (c :: w) s

/-- The words of a text, in order. -/
def words (s : String) : List String :=
  (wordsFrom [] s.toList).map String.ofList

theorem not_isBlank_of_mem_wordsFrom {w s v : List Char} (hw : ∀ c ∈ w, isBlank c = false)
    (hv : v ∈ wordsFrom w s) : ∀ c ∈ v, isBlank c = false := by
  induction s generalizing w with
  | nil =>
    simp only [wordsFrom] at hv
    split at hv
    · simp at hv
    · simp only [List.mem_singleton] at hv
      subst hv
      simpa using hw
  | cons c s ih =>
    simp only [wordsFrom] at hv
    split at hv
    · split at hv
      · exact ih (by simp) hv
      · rcases List.mem_cons.1 hv with rfl | hv
        · simpa using hw
        · exact ih (by simp) hv
    · rename_i hc
      exact ih (List.forall_mem_cons.2 ⟨by simpa using hc, hw⟩) hv

theorem not_isBlank_of_mem_words {s w : String} (h : w ∈ words s) :
    ∀ c ∈ w.toList, isBlank c = false := by
  obtain ⟨v, hv, rfl⟩ := List.mem_map.1 h
  simpa using not_isBlank_of_mem_wordsFrom (by simp) hv

end UtilityCss.Text
