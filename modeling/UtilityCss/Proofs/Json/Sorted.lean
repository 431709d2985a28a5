import Mathlib.Data.String.Basic
import UtilityCss.Json.Value
import UtilityCss.Number.Width

/-!
# Sorted values

The members of a sorted object have different keys in increasing order, so sorting it again changes
nothing (`sorted_sorted`). Sorting a value makes its brackets no deeper and its numbers no greater
(`Fits.sorted`).
-/

namespace UtilityCss.Json

variable {k : String} {a : Json} {m : String × Json} {l acc : List (String × Json)} {d : Nat}

/-- The brackets of a value are at most `depth` deep, and its whole numbers fit 64 bits. -/
inductive Fits : (depth : Nat) → Json → Prop where
  | null (d : Nat) : Fits d .null
  | bool (d : Nat) (b : Bool) : Fits d (.bool b)
  | int (d : Nat) {n : Int} (h : fitsWidth 63 64 n) : Fits d (.int n)
  | real (d : Nat) (x : Binary64) : Fits d (.real x)
  | string (d : Nat) (s : String) : Fits d (.string s)
  | array {d : Nat} {l : List Json} (h : ∀ a ∈ l, Fits d a) : Fits (d + 1) (.array l)
  | object {d : Nat} {l : List (String × Json)} (h : ∀ m ∈ l, Fits d m.2) : Fits (d + 1) (.object l)

/-- No binary64 number stands in a value. -/
inductive IsWhole : Json → Prop where
  | null : IsWhole .null
  | bool (b : Bool) : IsWhole (.bool b)
  | int (n : Int) : IsWhole (.int n)
  | string (s : String) : IsWhole (.string s)
  | array {l : List Json} (h : ∀ a ∈ l, IsWhole a) : IsWhole (.array l)
  | object {l : List (String × Json)} (h : ∀ m ∈ l, IsWhole m.2) : IsWhole (.object l)

/-! ### Members in order -/

/-- The keys are different and in increasing order. -/
def KeysIncrease (l : List (String × Json)) : Prop := l.Pairwise (·.1 < ·.1)

/-- Members put among others one after the other. -/
def insertMembers (acc l : List (String × Json)) : List (String × Json) :=
  l.foldl (fun l m => insertMember m.1 m.2 l) acc

theorem mem_insertMember (h : m ∈ insertMember k a l) : m = (k, a) ∨ m ∈ l := by
  induction l with
  | nil => exact .inl (List.mem_singleton.1 h)
  | cons n l ih =>
      rw [insertMember] at h
      split at h
      · exact (List.mem_cons.1 h).imp_right (List.mem_cons_of_mem n)
      · split at h
        · exact List.mem_cons.1 h
        · rcases List.mem_cons.1 h with rfl | h
          · exact .inr List.mem_cons_self
          · exact (ih h).imp_right (List.mem_cons_of_mem n)

theorem mem_insertMembers (h : m ∈ insertMembers acc l) : m ∈ acc ∨ m ∈ l := by
  induction l generalizing acc with
  | nil => exact .inl h
  | cons n l ih =>
      rcases ih h with h | h
      · rcases mem_insertMember h with rfl | h
        · exact .inr List.mem_cons_self
        · exact .inl h
      · exact .inr (List.mem_cons_of_mem n h)

theorem keysIncrease_insertMember (h : KeysIncrease l) : KeysIncrease (insertMember k a l) := by
  induction l with
  | nil => exact List.pairwise_singleton _ _
  | cons n l ih =>
      obtain ⟨hn, hl⟩ := List.pairwise_cons.1 h
      rw [insertMember]
      split
      · rename_i hk
        exact List.pairwise_cons.2 ⟨fun m hm => hk ▸ hn m hm, hl⟩
      · rename_i hne
        split
        · rename_i hlt
          refine List.pairwise_cons.2 ⟨fun m hm => ?_, h⟩
          rcases List.mem_cons.1 hm with rfl | hm
          · exact hlt
          · exact lt_trans hlt (hn m hm)
        · rename_i hle
          refine List.pairwise_cons.2 ⟨fun m hm => ?_, ih hl⟩
          rcases mem_insertMember hm with rfl | hm
          · exact lt_of_le_of_ne (not_lt.1 hle) (Ne.symm hne)
          · exact hn m hm

theorem keysIncrease_insertMembers (h : KeysIncrease acc) (l : List (String × Json)) :
    KeysIncrease (insertMembers acc l) := by
  induction l generalizing acc with
  | nil => exact h
  | cons m l ih => exact ih (keysIncrease_insertMember h)

theorem insertMember_of_lt (h : ∀ m ∈ l, m.1 < k) : insertMember k a l = l ++ [(k, a)] := by
  induction l with
  | nil => rfl
  | cons n l ih =>
      obtain ⟨hn, hl⟩ := List.forall_mem_cons.1 h
      rw [insertMember, if_neg (ne_of_gt hn), if_neg (not_lt_of_gt hn), ih hl, List.cons_append]

/-- Members in order are put one behind the other. -/
theorem insertMembers_of_keysIncrease (h : KeysIncrease (acc ++ l)) : insertMembers acc l = acc ++ l := by
  induction l generalizing acc with
  | nil => exact (List.append_nil acc).symm
  | cons m l ih =>
      have hlt : ∀ n ∈ acc, n.1 < m.1 :=
        fun n hn => (List.pairwise_append.1 h).2.2 n hn m List.mem_cons_self
      rw [List.append_cons] at h ⊢
      rw [← ih h, ← insertMember_of_lt hlt]
      rfl

/-! ### Sorting -/

theorem sortedItems_eq_map (l : List Json) : sortedItems l = l.map sorted := by
  induction l with
  | nil => rfl
  | cons a l ih => rw [sortedItems, ih, List.map_cons]

theorem sortedMembers_eq_map (l : List (String × Json)) :
    sortedMembers l = l.map fun m => (m.1, m.2.sorted) := by
  induction l with
  | nil => rfl
  | cons m l ih => rw [sortedMembers, ih, List.map_cons]

theorem sorted_array (l : List Json) : (array l).sorted = array (l.map sorted) := by
  rw [sorted, sortedItems_eq_map]

theorem sorted_object (l : List (String × Json)) :
    (object l).sorted = object (insertMembers [] (l.map fun m => (m.1, m.2.sorted))) := by
  rw [sorted, sortedMembers_eq_map]
  rfl

/-- An object of sorted values is sorted once its members are. -/
theorem sorted_insertMembers (h : ∀ m ∈ l, m.2.sorted = m.2) :
    (object (insertMembers [] l)).sorted = object (insertMembers [] l) := by
  have hmap : (insertMembers [] l).map (fun m => (m.1, m.2.sorted)) = insertMembers [] l := by
    refine (List.map_congr_left fun m hm => ?_).trans (List.map_id _)
    rw [h m ((mem_insertMembers hm).resolve_left List.not_mem_nil)]
    rfl
  rw [sorted_object, hmap]
  exact congrArg object (insertMembers_of_keysIncrease (keysIncrease_insertMembers .nil l))

mutual

/-- **Sorting is done once.** -/
theorem sorted_sorted : ∀ a : Json, a.sorted.sorted = a.sorted
  | null => by simp only [sorted]
  | bool _ => by simp only [sorted]
  | int _ => by simp only [sorted]
  | real _ => by simp only [sorted]
  | string _ => by simp only [sorted]
  | array l => by
      rw [sorted_array, sorted_array, List.map_map]
      exact congrArg array (List.map_congr_left (sorted_sorted_of_mem l))
  | object l => by
      rw [sorted_object]
      refine sorted_insertMembers fun m hm => ?_
      obtain ⟨n, hn, rfl⟩ := List.mem_map.1 hm
      exact sorted_sorted_of_mem_members l n hn

theorem sorted_sorted_of_mem : ∀ (l : List Json), ∀ a ∈ l, a.sorted.sorted = a.sorted
  | [] => nofun
  | a :: l => List.forall_mem_cons.2 ⟨sorted_sorted a, sorted_sorted_of_mem l⟩

theorem sorted_sorted_of_mem_members :
    ∀ (l : List (String × Json)), ∀ m ∈ l, m.2.sorted.sorted = m.2.sorted
  | [] => nofun
  | (_, a) :: l => List.forall_mem_cons.2 ⟨sorted_sorted a, sorted_sorted_of_mem_members l⟩

end

theorem Fits.sorted (h : Fits d a) : Fits d a.sorted := by
  induction h with
  | null d => simpa only [Json.sorted] using .null d
  | bool d b => simpa only [Json.sorted] using .bool d b
  | int d hn => simpa only [Json.sorted] using .int d hn
  | real d x => simpa only [Json.sorted] using .real d x
  | string d s => simpa only [Json.sorted] using .string d s
  | array _ ih =>
      rw [sorted_array]
      exact .array (List.forall_mem_map.2 ih)
  | object _ ih =>
      rw [sorted_object]
      refine .object fun m hm => ?_
      obtain ⟨n, hn, rfl⟩ := List.mem_map.1 ((mem_insertMembers hm).resolve_left List.not_mem_nil)
      exact ih n hn

end UtilityCss.Json
