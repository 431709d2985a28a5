import UtilityCss.Text.Basic
import UtilityCss.Text.Blank
import UtilityCss.Text.Case
import Mathlib.Data.List.Basic
import Mathlib.Data.List.TakeWhile

/-!
# Texts put together and taken apart

What is in a text is in one of the pieces that it was put together from, separators aside
(`Text.mem_intercalate`); a text that is cut before a tag is the two parts one behind the other
(`Text.splitBeforeLower?_eq`); and a word is not found across a character that does not occur in it
(`Text.isSome_afterLower?_append_cons`). Nothing is trimmed of a text that has no blank at its ends
(`Text.trim_eq_self`).
-/

namespace UtilityCss.Text

variable {c a : Char} {s t p : List Char}

/-- What holds of the characters of ASCII is checked one by one. -/
theorem forall_ascii {p : Char → Bool}
    (h : (List.range 0x80).all (fun n => p (Char.ofNat n)) = true) (hc : c.toNat < 0x80) :
    p c = true := by
  have hp := List.all_eq_true.1 h c.toNat (List.mem_range.2 hc)
  rwa [Char.ofNat_toNat] at hp

theorem le_of_isAlphanum (h : c.isAlphanum) : c ≤ 'z' := by
  rcases (Bool.or_eq_true c.isAlpha c.isDigit).mp h with h | h
  · rcases (Bool.or_eq_true c.isUpper c.isLower).mp h with h | h
    · exact Char.le_trans (of_decide_eq_true h).2 (by decide : 'Z' ≤ 'z')
    · exact of_decide_eq_true ((Bool.and_eq_true _ _).mp h).2
  · exact Char.le_trans (of_decide_eq_true ((Bool.and_eq_true _ _).mp h).2) (by decide : '9' ≤ 'z')

theorem toNat_lt_of_isAlphanum (h : c.isAlphanum) : c.toNat < 0x80 :=
  (UInt32.le_iff_toNat_le.1 (le_of_isAlphanum h)).trans_lt (by decide)

/-- What holds of the letters and digits of ASCII is checked one by one. -/
theorem forall_alphanum {p : Char → Bool}
    (h : (List.range 0x80).all (fun n => !(Char.ofNat n).isAlphanum || p (Char.ofNat n)) = true)
    (hc : c.isAlphanum) : p c = true := by
  have hp := forall_ascii (p := fun c => !c.isAlphanum || p c) h (toNat_lt_of_isAlphanum hc)
  rwa [hc, Bool.not_true, Bool.false_or] at hp

theorem not_isBlank_of_isAlphanum (h : c.isAlphanum) : isBlank c = false := by
  simpa using forall_alphanum (p := fun c => !isBlank c) (by decide +kernel) h

/-- A character of a row of texts is one of the separator or of a text. -/
theorem mem_intercalate (hc : c ≠ a) {l : List (List Char)} :
    c ∈ [a].intercalate l ↔ ∃ s ∈ l, c ∈ s := by
  induction l with
  | nil => simp
  | cons s l ih =>
      cases l with
      | nil => simp
      | cons t l =>
          rw [List.intercalate_cons_cons, List.mem_append, List.mem_append, List.mem_singleton,
            or_iff_left hc, List.exists_mem_cons_iff]
          exact or_congr_right ih

/-- Parts and what is between them make up a text. -/
theorem forall_of_split {P : Char → Prop} {v : String} (ha : P a)
    (h : ∀ part ∈ split a v, ∀ c ∈ part.toList, P c) : ∀ c ∈ v.toList, P c := by
  intro c hc
  by_cases hca : c = a
  · exact hca ▸ ha
  · have hparts : [a].intercalate (v.toList.splitOn a) = v.toList := List.intercalate_splitOn a
    rw [← hparts] at hc
    obtain ⟨part, hpart, hc⟩ := (mem_intercalate hca).1 hc
    refine h (String.ofList part) (List.mem_map_of_mem hpart) c ?_
    rwa [String.toList_ofList]

theorem prefix_intercalate {l l' : List (List Char)} (h : l <+: l') :
    [a].intercalate l <+: [a].intercalate l' := by
  induction l generalizing l' with
  | nil => exact List.nil_prefix
  | cons s l ih =>
      cases l' with
      | nil => cases List.prefix_nil.1 h
      | cons s' l' =>
          obtain ⟨rfl, hlater⟩ := List.cons_prefix_cons.1 h
          cases l with
          | nil => cases l' <;> simp [List.intercalate_cons_cons]
          | cons t l =>
              cases l' with
              | nil => cases List.prefix_nil.1 hlater
              | cons t' l' =>
                  rw [List.intercalate_cons_cons, List.intercalate_cons_cons,
                    List.prefix_append_right_inj]
                  exact ih hlater

theorem suffix_intercalate {l l' : List (List Char)} (h : l <:+ l') :
    [a].intercalate l <:+ [a].intercalate l' := by
  induction l' with
  | nil =>
      obtain rfl := List.suffix_nil.1 h
      exact List.suffix_refl _
  | cons s l' ih =>
      rcases List.suffix_cons_iff.1 h with rfl | h
      · exact List.suffix_refl _
      · refine (ih h).trans ?_
        cases l' with
        | nil => exact List.nil_suffix
        | cons t l' =>
            rw [List.intercalate_cons_cons]
            exact List.suffix_append _ _

/-- A part of a row of texts is a part of the text of the whole row. -/
theorem infix_intercalate {l l' : List (List Char)} (h : l <:+: l') :
    [a].intercalate l <:+: [a].intercalate l' := by
  obtain ⟨m, hprefix, hsuffix⟩ := List.infix_iff_prefix_suffix.1 h
  exact (prefix_intercalate hprefix).isInfix.trans (suffix_intercalate hsuffix).isInfix

/-- Pieces between the occurrences of a character do not hold it. -/
theorem not_mem_of_mem_splitOn (h : p ∈ s.splitOn a) : a ∉ p := by
  induction s generalizing p with
  | nil =>
      rw [List.mem_singleton.1 h]
      exact List.not_mem_nil
  | cons c s ih =>
      rw [List.splitOn_cons_eq_if_modifyHead] at h
      by_cases hc : c = a
      · rw [if_pos (by simpa using hc)] at h
        rcases List.mem_cons.1 h with rfl | h
        · exact List.not_mem_nil
        · exact ih h
      · rw [if_neg (by simpa using hc)] at h
        cases hs : s.splitOn a with
        | nil => simp [hs] at h
        | cons first later =>
            rw [hs, List.modifyHead_cons] at h
            rcases List.mem_cons.1 h with rfl | h
            · have hfirst := ih (hs ▸ List.mem_cons_self)
              exact List.not_mem_cons_of_ne_of_not_mem (fun e => hc e.symm) hfirst
            · exact ih (hs ▸ List.mem_cons_of_mem _ h)

/-- What precedes the first occurrence of a character is known, and so is what follows it. -/
theorem append_cons_inj {s' t' : List Char} (hs : a ∉ s) (hs' : a ∉ s') :
    s ++ a :: t = s' ++ a :: t' ↔ s = s' ∧ t = t' := by
  constructor
  · intro h
    induction s generalizing s' with
    | nil =>
        cases s' with
        | nil => exact ⟨rfl, List.tail_eq_of_cons_eq h⟩
        | cons b s' =>
            obtain ⟨rfl, -⟩ := List.cons.inj h
            exact absurd List.mem_cons_self hs'
    | cons b s ih =>
        cases s' with
        | nil =>
            obtain ⟨rfl, -⟩ := List.cons.inj h
            exact absurd List.mem_cons_self hs
        | cons b' s' =>
            obtain ⟨rfl, htail⟩ := List.cons.inj h
            obtain ⟨rfl, ht⟩ := ih (fun hm => hs (List.mem_cons_of_mem b hm))
              (fun hm => hs' (List.mem_cons_of_mem b hm)) htail
            exact ⟨rfl, ht⟩
  · rintro ⟨rfl, rfl⟩
    rfl

/-- A word at the head of two texts joined at a character that the word does not hold is a part of the
first. -/
theorem prefix_of_prefix_append_cons (hc : c ∉ p)
    (h : p <+: s ++ c :: t) : p <+: s := by
  have hs : s ++ [c] <+: s ++ c :: t := ⟨t, by simp⟩
  rcases List.prefix_or_prefix_of_prefix h hs with hp | hp
  · rcases List.prefix_concat_iff.1 hp with rfl | hp
    · exact absurd List.mem_concat_self hc
    · exact hp
  · exact absurd (hp.subset List.mem_concat_self) hc

theorem replaceChar_of_not_mem {old new : Char} {s : String} (h : old ∉ s.toList) :
    replaceChar old new s = s := by
  have hkeep : ∀ c ∈ s.toList, (if c = old then new else c) = id c := by
    intro c hc
    refine if_neg ?_
    rintro rfl
    exact h hc
  rw [replaceChar, List.map_congr_left hkeep, List.map_id, String.ofList_toList]

/-- Trimming takes off blanks alone. -/
theorem mem_trim (hb : isBlank c = false) (h : c ∈ s) : c ∈ trim s := by
  have hdrop : ∀ l : List Char, c ∈ l → c ∈ l.dropWhile isBlank := by
    intro l hl
    rw [← List.takeWhile_append_dropWhile (p := isBlank) (l := l)] at hl
    refine (List.mem_append.1 hl).resolve_left fun ht => ?_
    rw [List.mem_takeWhile_imp ht] at hb
    cases hb
  rw [trim, List.mem_reverse]
  exact hdrop _ (List.mem_reverse.2 (hdrop s h))

theorem mem_of_mem_trim (h : c ∈ trim s) : c ∈ s := by
  rw [trim, List.mem_reverse] at h
  have hdrop := (List.dropWhile_sublist isBlank).subset h
  rw [List.mem_reverse] at hdrop
  exact (List.dropWhile_sublist isBlank).subset hdrop

/-- A text with other characters at its ends has nothing to trim. -/
theorem trim_eq_self (hfirst : ∀ c ∈ s.head?, isBlank c = false)
    (hlast : ∀ c ∈ s.getLast?, isBlank c = false) : trim s = s := by
  have hkeep : ∀ l : List Char, (∀ c ∈ l.head?, isBlank c = false) → l.dropWhile isBlank = l := by
    intro l hl
    cases l with
    | nil => rfl
    | cons c l => rw [List.dropWhile_cons_of_neg (by simpa using hl c rfl)]
  rw [trim, hkeep s hfirst, hkeep s.reverse (by simpa using hlast), List.reverse_reverse]

/-- Words are not empty. -/
theorem ne_nil_of_mem_wordsFrom {w v : List Char} (h : v ∈ wordsFrom w s) : v ≠ [] := by
  induction s generalizing w with
  | nil =>
      unfold wordsFrom at h
      split at h
      · cases h
      · rename_i hw
        rw [List.mem_singleton.1 h]
        simpa using hw
  | cons c s ih =>
      unfold wordsFrom at h
      split at h
      · split at h
        · exact ih h
        · rename_i hw
          rcases List.mem_cons.1 h with rfl | h
          · simpa using hw
          · exact ih h
      · exact ih h

/-- A text is cut into the parts before a word and from there on. -/
theorem splitBeforeLower?_eq {parts : List Char × List Char}
    (h : splitBeforeLower? p s = some parts) : s = parts.1 ++ parts.2 := by
  induction s generalizing parts with
  | nil =>
      unfold splitBeforeLower? at h
      split at h
      · cases h
        rfl
      · cases h
  | cons c s ih =>
      unfold splitBeforeLower? at h
      split at h
      · cases h
        rfl
      · obtain ⟨later, hlater, rfl⟩ := Option.map_eq_some_iff.1 h
        rw [ih hlater]
        rfl

/-- A character that matches no character of a word. -/
def Misses (p : List Char) (c : Char) : Prop := ∀ a ∈ p, matchesLower a c = false

instance (p : List Char) (c : Char) : Decidable (Misses p c) := List.decidableBAll _ p

/-- A word that stands at the head of a text is over before a character that it misses. -/
theorem dropPrefixLower?_append_cons (hp : Misses p c) :
    (dropPrefixLower? p (s ++ c :: t)).isSome = (dropPrefixLower? p s).isSome := by
  induction p generalizing s with
  | nil => rfl
  | cons a p ih =>
      obtain ⟨ha, hp⟩ := List.forall_mem_cons.1 hp
      cases s with
      | nil => simp [dropPrefixLower?, ha]
      | cons b s =>
          simp only [List.cons_append, dropPrefixLower?]
          split
          · exact ih hp
          · rfl

theorem isSome_afterLower?_cons (p : List Char) (c : Char) (s : List Char) :
    (afterLower? p (c :: s)).isSome =
      ((dropPrefixLower? p (c :: s)).isSome || (afterLower? p s).isSome) := by
  rw [afterLower?]
  cases dropPrefixLower? p (c :: s) <;> rfl

/-- A word is found before a character that it misses or behind it. -/
theorem isSome_afterLower?_append_cons (hp : Misses p c) (hne : p ≠ []) :
    (afterLower? p (s ++ c :: t)).isSome =
      ((afterLower? p s).isSome || (afterLower? p t).isSome) := by
  induction s with
  | nil =>
      have hhead := dropPrefixLower?_append_cons (s := []) (t := t) hp
      rw [List.nil_append] at hhead ⊢
      rw [isSome_afterLower?_cons, hhead, afterLower?, if_neg hne]
      obtain ⟨a, p, rfl⟩ := List.exists_cons_of_ne_nil hne
      rfl
  | cons b s ih =>
      have hhead := dropPrefixLower?_append_cons (s := b :: s) (t := t) hp
      rw [List.cons_append] at hhead ⊢
      rw [isSome_afterLower?_cons, isSome_afterLower?_cons, ih, hhead, Bool.or_assoc]

end UtilityCss.Text
