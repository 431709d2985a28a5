import UtilityCss.OrderedMap
import Mathlib.Data.List.Induction

/-!
# Order of arrival

A list without repetition keeps the first of each element; what is appended to it changes that only by
what is new (`eraseDups_concat`, `eraseDups_append_of_subset`). The map of a list of entries has its
keys in that order (`OrderedMap.keys_ofList`), and at each key the last value (`OrderedMap.get?_ofList`).
-/

namespace UtilityCss

/-! ### Lists without repetition -/

section EraseDups

variable {α : Type} [DecidableEq α] {l l' : List α} {a : α}

theorem eraseDups_concat :
    (l ++ [a]).eraseDups = if a ∈ l then l.eraseDups else l.eraseDups ++ [a] := by
  rw [List.eraseDups_append]
  by_cases h : a ∈ l <;> simp [List.removeAll, h, List.eraseDups_cons]

theorem eraseDups_append_of_subset (h : l' ⊆ l) : (l ++ l').eraseDups = l.eraseDups := by
  have hnone : l'.removeAll l = [] := by
    rw [List.removeAll, List.filter_eq_nil_iff]
    intro a ha
    simpa using h ha
  rw [List.eraseDups_append, hnone, List.eraseDups_nil, List.append_nil]

/-- What is appended any number of times might as well be appended once. -/
theorem eraseDups_append_replicate {n : Nat} (hn : n ≠ 0) :
    (l ++ List.replicate n a).eraseDups = (l ++ [a]).eraseDups := by
  obtain ⟨n, rfl⟩ := Nat.exists_eq_succ_of_ne_zero hn
  rw [List.replicate_succ, List.append_cons]
  refine eraseDups_append_of_subset fun b hb => ?_
  exact List.mem_append_right _ (List.mem_singleton.2 (List.eq_of_mem_replicate hb))

theorem eraseDups_concat_congr (h : l.eraseDups = l'.eraseDups) :
    (l ++ [a]).eraseDups = (l' ++ [a]).eraseDups := by
  have hmem : a ∈ l ↔ a ∈ l' := by rw [← List.mem_eraseDups, h, List.mem_eraseDups]
  simp only [eraseDups_concat, hmem, h]

theorem eraseDups_prefix : l.eraseDups <+: (l ++ l').eraseDups := by
  rw [List.eraseDups_append]
  exact List.prefix_append _ _

end EraseDups

/-! ### Maps of lists -/

namespace OrderedMap

variable {κ α : Type} [DecidableEq κ]

theorem get?_eq_lookup {m : OrderedMap κ α} {k : κ} : m.get? k = m.entries.lookup k := by
  rw [get?]
  induction m.entries with
  | nil => rfl
  | cons e l ih =>
      obtain ⟨j, a⟩ := e
      by_cases h : j = k
      · simp [h]
      · have hk : (k == j) = false := beq_eq_false_iff_ne.2 fun heq => h heq.symm
        simp [h, hk, List.lookup_cons, ih]

theorem insertAll_append (m : OrderedMap κ α) (l l' : List (κ × α)) :
    m.insertAll (l ++ l') = (m.insertAll l).insertAll l' :=
  List.foldl_append

theorem ofList_concat (l : List (κ × α)) (e : κ × α) : ofList (l ++ [e]) = (ofList l).insert e.1 e.2 := by
  simp [ofList, insertAll]

theorem keys_ofList (l : List (κ × α)) : (ofList l).keys = (l.map Prod.fst).eraseDups := by
  induction l using List.reverseRecOn with
  | nil => rfl
  | append_singleton l e ih =>
      rw [ofList_concat, keys_insert, ih, List.map_append, List.map_singleton, eraseDups_concat]
      simp only [List.mem_eraseDups]

theorem insertEntry_of_not_mem {k : κ} {a : α} {l : List (κ × α)} (h : k ∉ l.map Prod.fst) :
    insertEntry k a l = l ++ [(k, a)] := by
  induction l with
  | nil => rfl
  | cons e l ih =>
      rw [List.map_cons, List.mem_cons, not_or] at h
      rw [insertEntry, if_neg (Ne.symm h.1), ih h.2, List.cons_append]

/-- Entries with different keys stay as they are. -/
theorem entries_ofList {l : List (κ × α)} (h : (l.map Prod.fst).Nodup) : (ofList l).entries = l := by
  induction l using List.reverseRecOn with
  | nil => rfl
  | append_singleton l e ih =>
      rw [List.map_append, List.map_singleton, List.nodup_append] at h
      have hnew : e.1 ∉ l.map Prod.fst := fun he => h.2.2 _ he _ List.mem_cons_self rfl
      rw [ofList_concat]
      show insertEntry e.1 e.2 (ofList l).entries = _
      rw [ih h.1, insertEntry_of_not_mem hnew]

theorem ofList_entries (m : OrderedMap κ α) : ofList m.entries = m := by
  have hentries := entries_ofList m.nodup
  rcases hm : ofList m.entries with ⟨l, hl⟩
  rw [hm] at hentries
  subst hentries
  rfl

theorem mem_insertEntry {k : κ} {a : α} {e : κ × α} {l : List (κ × α)} (h : e ∈ insertEntry k a l) :
    e = (k, a) ∨ e ∈ l := by
  induction l with
  | nil => exact .inl (List.mem_singleton.1 h)
  | cons e' l ih =>
      rw [insertEntry] at h
      split at h
      · exact (List.mem_cons.1 h).imp_right (List.mem_cons_of_mem e')
      · rcases List.mem_cons.1 h with rfl | h
        · exact .inr List.mem_cons_self
        · exact (ih h).imp_right (List.mem_cons_of_mem e')

theorem mem_of_mem_entries_ofList {l : List (κ × α)} {e : κ × α} (h : e ∈ (ofList l).entries) : e ∈ l := by
  induction l using List.reverseRecOn with
  | nil => cases h
  | append_singleton l e' ih =>
      rw [ofList_concat] at h
      rcases mem_insertEntry h with rfl | h
      · exact List.mem_append_right l List.mem_cons_self
      · exact List.mem_append_left _ (ih h)

/-- The value at a key is the last one of the list. -/
theorem get?_ofList (l : List (κ × α)) (k : κ) :
    (ofList l).get? k = (l.reverse.find? fun e => e.1 = k).map Prod.snd := by
  induction l using List.reverseRecOn with
  | nil => rfl
  | append_singleton l e ih =>
      rw [ofList_concat, List.reverse_concat]
      by_cases h : e.1 = k
      · simp [← h]
      · rw [get?_insert_of_ne fun hk => h hk.symm, ih]
        simp [h]

theorem get?_ofList_eq_some_iff {l : List (κ × α)} {k : κ} {a : α} : (ofList l).get? k = some a ↔
    ∃ l₁ l₂, l = l₁ ++ (k, a) :: l₂ ∧ k ∉ l₂.map Prod.fst := by
  rw [get?_ofList, Option.map_eq_some_iff]
  constructor
  · rintro ⟨⟨j, a⟩, hfind, rfl⟩
    obtain ⟨hj, l₂, l₁, hl, hnone⟩ := List.find?_eq_some_iff_append.1 hfind
    obtain rfl : j = k := by simpa using hj
    refine ⟨l₁.reverse, l₂.reverse, by rw [List.reverse_eq_iff.1 hl]; simp, fun hk => ?_⟩
    obtain ⟨e, he, hej⟩ := List.mem_map.1 hk
    simpa [hej] using hnone e (List.mem_reverse.1 he)
  · rintro ⟨l₁, l₂, rfl, hnone⟩
    refine ⟨(k, a), List.find?_eq_some_iff_append.2 ⟨by simp, l₂.reverse, l₁.reverse, by simp, ?_⟩, rfl⟩
    intro e he
    have hne : e.1 ≠ k := fun hk => hnone (hk ▸ List.mem_map_of_mem (List.mem_reverse.1 he))
    simpa using hne

end OrderedMap

end UtilityCss
