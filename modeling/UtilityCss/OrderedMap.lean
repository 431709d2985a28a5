/-!
# Ordered maps

Maps that keep the order in which their keys first arrived. A key that arrives again takes the new
value and keeps its place. Since the order shows in every output, it is part of the type, and so is
the fact that a key occurs once.

The main statements say what `insert` does to each view: `get?_insert_self` and `get?_insert_of_ne`
to the values, `keys_insert` to the keys.
-/

namespace UtilityCss

/-- The entries with the value at `k` replaced, or with a new last entry. -/
def insertEntry {κ α : Type} [DecidableEq κ] (k : κ) (a : α) : List (κ × α) → List (κ × α)
  | []     => [(k, a)]
  | e :: l => if e.1 = k then (k, a) :: l else e :: insertEntry k a l

section Entries

variable {κ α : Type} [DecidableEq κ] {k : κ} {a : α} {l : List (κ × α)}

theorem map_fst_insertEntry :
    (insertEntry k a l).map Prod.fst =
      if k ∈ l.map Prod.fst then l.map Prod.fst else l.map Prod.fst ++ [k] := by
  induction l with
  | nil => simp [insertEntry]
  | cons e l ih =>
    by_cases h : e.1 = k
    · simp [insertEntry, h]
    · have hk : k ≠ e.1 := fun e' => h e'.symm
      simp only [insertEntry, h, if_false, List.map_cons, ih, List.mem_cons, hk, false_or]
      split <;> simp

theorem nodup_insertEntry (h : (l.map Prod.fst).Nodup) :
    ((insertEntry k a l).map Prod.fst).Nodup := by
  rw [map_fst_insertEntry]
  split
  · exact h
  · rename_i hk
    rw [List.nodup_append]
    refine ⟨h, by simp, ?_⟩
    intro x hx y hy e
    simp only [List.mem_singleton] at hy
    exact hk (hy ▸ e ▸ hx)

end Entries

/-- A map whose entries stand in the order of arrival of their keys. -/
structure OrderedMap (κ α : Type) where
  entries : List (κ × α)
  /-- A key occurs once. -/
  nodup   : (entries.map Prod.fst).Nodup
deriving DecidableEq

namespace OrderedMap

variable {κ α : Type}

instance : EmptyCollection (OrderedMap κ α) where
  emptyCollection := ⟨[], by simp⟩

instance : Inhabited (OrderedMap κ α) := ⟨∅⟩

def keys (m : OrderedMap κ α) : List κ := m.entries.map Prod.fst

def size (m : OrderedMap κ α) : Nat := m.entries.length

def isEmpty (m : OrderedMap κ α) : Bool := m.entries.isEmpty

theorem nodup_keys (m : OrderedMap κ α) : m.keys.Nodup := m.nodup

variable [DecidableEq κ]

/-- The value at a key. -/
def get? (m : OrderedMap κ α) (k : κ) : Option α :=
  (m.entries.find? fun e => e.1 = k).map Prod.snd

def contains (m : OrderedMap κ α) (k : κ) : Bool := (m.get? k).isSome

/-- Puts a value at a key, which stands last if it is new. -/
def insert (m : OrderedMap κ α) (k : κ) (a : α) : OrderedMap κ α :=
  ⟨insertEntry k a m.entries, nodup_insertEntry m.nodup⟩

/-- Takes a key out. -/
def erase (m : OrderedMap κ α) (k : κ) : OrderedMap κ α :=
  ⟨m.entries.filter fun e => e.1 ≠ k, m.nodup.sublist (List.filter_sublist.map _)⟩

/-- Puts entries one after the other. -/
def insertAll (m : OrderedMap κ α) (l : List (κ × α)) : OrderedMap κ α :=
  l.foldl (fun m e => m.insert e.1 e.2) m

/-- The map of a list of entries: of two with one key, the later value at the earlier place. -/
def ofList (l : List (κ × α)) : OrderedMap κ α := insertAll ∅ l

/-! ### What `insert` does -/

variable {m : OrderedMap κ α} {k j : κ} {a : α}

@[simp] theorem get?_empty : (∅ : OrderedMap κ α).get? k = none := rfl

theorem find?_insertEntry {l : List (κ × α)} :
    ((insertEntry k a l).find? fun e => e.1 = j).map Prod.snd =
      if j = k then some a else (l.find? fun e => e.1 = j).map Prod.snd := by
  induction l with
  | nil => by_cases h : j = k <;> simp [insertEntry, h, eq_comm]
  | cons e l ih =>
    by_cases h : e.1 = k
    · by_cases h' : j = k
      · simp [insertEntry, h, h']
      · have hk : k ≠ j := fun e' => h' e'.symm
        have he : e.1 ≠ j := h ▸ hk
        simp [insertEntry, h, h', hk]
    · by_cases he : e.1 = j
      · have h' : j ≠ k := he ▸ h
        simp [insertEntry, he, h']
      · simpa [insertEntry, h, he] using ih

@[simp] theorem get?_insert_self : (m.insert k a).get? k = some a := by
  simpa [get?, insert] using find?_insertEntry (k := k) (j := k) (a := a) (l := m.entries)

theorem get?_insert_of_ne (h : j ≠ k) : (m.insert k a).get? j = m.get? j := by
  simpa [get?, insert, h] using find?_insertEntry (k := k) (j := j) (a := a) (l := m.entries)

@[simp] theorem get?_erase_self : (m.erase k).get? k = none := by
  simp [get?, erase]

theorem get?_erase_of_ne (h : j ≠ k) : (m.erase k).get? j = m.get? j := by
  have : (m.entries.filter fun e => e.1 ≠ k).find? (fun e => e.1 = j) =
      m.entries.find? fun e => e.1 = j := by
    rw [List.find?_filter]
    congr 1
    funext e
    by_cases he : e.1 = j <;> simp_all
  exact congrArg (Option.map Prod.snd) this

theorem keys_insert : (m.insert k a).keys = if k ∈ m.keys then m.keys else m.keys ++ [k] :=
  map_fst_insertEntry

theorem get?_isSome_iff : (m.get? k).isSome ↔ k ∈ m.keys := by
  simp [get?, keys]

theorem mem_entries_of_get? (h : m.get? k = some a) : (k, a) ∈ m.entries := by
  obtain ⟨e, he, rfl⟩ := Option.map_eq_some_iff.1 h
  have hk : e.1 = k := by simpa using List.find?_some he
  exact hk ▸ List.mem_of_find?_eq_some he

theorem get?_of_mem_entries (h : (k, a) ∈ m.entries) : m.get? k = some a := by
  obtain ⟨l, r, hl⟩ := List.append_of_mem h
  have hn := m.nodup
  rw [hl, List.map_append, List.map_cons, List.nodup_append] at hn
  have hfind : m.entries.find? (fun e => e.1 = k) = some (k, a) := by
    rw [List.find?_eq_some_iff_append]
    refine ⟨by simp, l, r, hl, fun e he => ?_⟩
    simpa using hn.2.2 e.1 (List.mem_map_of_mem he) k List.mem_cons_self
  exact congrArg (Option.map Prod.snd) hfind

/-- A map is known by its keys and the value at each of them. -/
theorem entries_eq_map {f : κ → α} (h : ∀ k ∈ m.keys, m.get? k = some (f k)) :
    m.entries = m.keys.map fun k => (k, f k) := by
  have hentry : ∀ e ∈ m.entries, (e.1, f e.1) = e := by
    intro e he
    have hk := h e.1 (List.mem_map_of_mem he)
    rw [get?_of_mem_entries he] at hk
    rw [← Option.some.inj hk]
  rw [keys, List.map_map]
  exact (List.map_id m.entries).symm.trans (List.map_congr_left fun e he => (hentry e he).symm)

theorem contains_iff : m.contains k = true ↔ k ∈ m.keys := get?_isSome_iff

end OrderedMap

end UtilityCss
