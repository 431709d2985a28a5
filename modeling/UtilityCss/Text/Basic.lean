/-!
# Text

Texts are lists of characters while they are scanned. This module holds the steps that every scanner
shares: a fixed text at the head of another, the first occurrence of a text, and the removal of every
passage of one kind. A passage is never empty, so removal ends.

The main statements are `dropPrefix?_eq_some_iff`, which says what a fixed text at the head leaves,
and `Passage.cut_sublist`: cutting passages only deletes.
-/

namespace UtilityCss.Text

/-! ### Fixed texts -/

/-- What follows `p` at the head of a text, if `p` stands there. -/
def dropPrefix? : List Char → List Char → Option (List Char)
  | [],     s      => some s
  | _ :: _, []     => none
  | a :: p, b :: s => if a = b then dropPrefix? p s else none

theorem dropPrefix?_eq_some_iff {p s r : List Char} : dropPrefix? p s = some r ↔ s = p ++ r := by
  induction p generalizing s with
  | nil => simp [dropPrefix?]
  | cons a p ih =>
    cases s with
    | nil => simp [dropPrefix?]
    | cons b s =>
      by_cases h : a = b
      · simp [dropPrefix?, h, ih]
      · have : b ≠ a := fun e => h e.symm
        simp [dropPrefix?, h, this]

@[simp] theorem dropPrefix?_append (p r : List Char) : dropPrefix? p (p ++ r) = some r :=
  dropPrefix?_eq_some_iff.2 rfl

theorem length_of_dropPrefix? {p s r : List Char} (h : dropPrefix? p s = some r) :
    s.length = p.length + r.length := by
  simp [dropPrefix?_eq_some_iff.1 h]

/-- What precedes `p` at the end of a text, if `p` stands there. -/
def dropSuffix? (p s : List Char) : Option (List Char) :=
  (dropPrefix? p.reverse s.reverse).map List.reverse

theorem dropSuffix?_eq_some_iff {p s r : List Char} : dropSuffix? p s = some r ↔ s = r ++ p := by
  rw [dropSuffix?, Option.map_eq_some_iff]
  constructor
  · rintro ⟨t, ht, rfl⟩
    rw [← List.reverse_inj, dropPrefix?_eq_some_iff.1 ht]
    simp
  · rintro rfl
    exact ⟨r.reverse, dropPrefix?_eq_some_iff.2 (by simp), by simp⟩

/-- What follows the first occurrence of `p`. -/
def after? (p : List Char) : List Char → Option (List Char)
  | []     => if p = [] then some [] else none
  | c :: s =>
    match dropPrefix? p (c :: s) with
    | some r => some r
    | none   => after? p s

theorem length_le_of_after? {p s r : List Char} (h : after? p s = some r) :
    r.length ≤ s.length := by
  induction s with
  | nil => simp only [after?] at h; split at h <;> simp_all
  | cons c s ih =>
    simp only [after?] at h
    split at h
    · rename_i r' hr
      have := length_of_dropPrefix? hr
      cases h
      omega
    · have := ih h
      simp only [List.length_cons]
      omega

theorem suffix_of_after? {p s r : List Char} (h : after? p s = some r) : r <:+ s := by
  induction s with
  | nil => simp only [after?] at h; split at h <;> simp_all
  | cons c s ih =>
    simp only [after?] at h
    split at h
    · rename_i r' hr
      cases h
      exact ⟨p, (dropPrefix?_eq_some_iff.1 hr).symm⟩
    · exact (ih h).trans (List.suffix_cons c s)

/-- Whether `p` occurs in a text. -/
def occurs (p s : List Char) : Bool :=
  (after? p s).isSome

/-- The pieces of a text between the occurrences of a character, empty ones included. -/
def split (c : Char) (s : String) : List String :=
  (s.toList.splitOn c).map String.ofList

/-- A text with one character in place of another. -/
def replaceChar (old new : Char) (s : String) : String :=
  String.ofList (s.toList.map fun c => if c = old then new else c)

/-! ### Passages -/

/-- A kind of passage: `rest? s` is what follows a passage at the head of `s`. -/
structure Passage where
  rest? : List Char → Option (List Char)
  /-- A passage is not empty. -/
  shorter : ∀ {s r}, rest? s = some r → r.length < s.length
  /-- What follows a passage is the end of the text it stands in. -/
  suffix : ∀ {s r}, rest? s = some r → r <:+ s

namespace Passage

/-- From an opener through the nearest closer. An opener without a closer opens no passage. -/
def between (opener closer : List Char) (h : opener ≠ []) : Passage where
  rest? s := (dropPrefix? opener s).bind (after? closer)
  shorter {s r} e := by
    obtain ⟨t, ht, hr⟩ := Option.bind_eq_some_iff.1 e
    have := length_of_dropPrefix? ht
    have := length_le_of_after? hr
    have := List.length_pos_iff.2 h
    omega
  suffix {s r} e := by
    obtain ⟨t, ht, hr⟩ := Option.bind_eq_some_iff.1 e
    exact (suffix_of_after? hr).trans ⟨opener, (dropPrefix?_eq_some_iff.1 ht).symm⟩

/-- The text without its passages, which are found from left to right. -/
def cut (p : Passage) : List Char → List Char
  | []     => []
  | c :: s =>
    match _h : p.rest? (c :: s) with
    | some r => p.cut r
    | none   => c :: p.cut s
termination_by s => s.length
decreasing_by
  · exact p.shorter _h
  · simp

theorem cut_of_rest? {p : Passage} {s r : List Char} (h : p.rest? s = some r) :
    p.cut s = p.cut r := by
  cases s with
  | nil => exact absurd (p.shorter h) (by simp)
  | cons c s =>
    rw [cut]
    split
    · rename_i r' hr
      rw [h] at hr
      cases hr
      rfl
    · rename_i hn
      simp [h] at hn

theorem cut_cons_of_none {p : Passage} {c : Char} {s : List Char}
    (h : p.rest? (c :: s) = none) : p.cut (c :: s) = c :: p.cut s := by
  rw [cut]
  split
  · rename_i hr
    simp [h] at hr
  · rfl

/-- Cutting passages only deletes. -/
theorem cut_sublist (p : Passage) (s : List Char) : (p.cut s).Sublist s := by
  fun_induction cut p s with
  | case1 => exact List.Sublist.slnil
  | case2 c s r h ih => exact ih.trans (p.suffix h).sublist
  | case3 c s h ih => exact ih.cons_cons c

end Passage

end UtilityCss.Text
