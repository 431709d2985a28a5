import UtilityCss.Proofs.Json.Lexeme
import UtilityCss.Proofs.Json.Result
import UtilityCss.Proofs.Json.Sorted
import UtilityCss.Proofs.OrderedMap

/-!
# What readers yield

A reader yields only values with a property if whatever it takes off a text has it (`Yields`). What is
put together from parts has a property that the parts hand on: states that elements and members lead to
(`Yields.elements`, `Yields.members`), and records (`yields_record`). A reader of values yields only
values that fit (`yields_value`).
-/

namespace UtilityCss.Json

variable {α β σ : Type} {s rest : List Char} {d : Nat} {P : α → Prop} {Q : β → Prop} {I : σ → Prop}

/-- Whatever the reader takes off a text has the property. -/
def Yields (P : α → Prop) (read : Reader α) : Prop :=
  ∀ s a rest, Gives (read s) a rest → P a

theorem yields_true (read : Reader α) : Yields (fun _ => True) read := fun _ _ _ _ => trivial

theorem Yields.mono {P' : α → Prop} {read : Reader α} (h : Yields P read) (hP : ∀ a, P a → P' a) :
    Yields P' read :=
  fun s a rest ha => hP a (h s a rest ha)

theorem gives_of_eq {x : Except Error (Read s α)} {p : Read s α} (h : x = .ok p) :
    Gives x p.value p.rest :=
  ⟨p.shorter, h⟩

theorem exists_of_gives_map {x : Except Error (Read s α)} {f : α → β} {b : β}
    (h : Gives (x.map (·.map f)) b rest) : ∃ a, Gives x a rest ∧ f a = b := by
  obtain ⟨hlt, h⟩ := h
  cases x with
  | error e => cases h
  | ok p =>
      cases h
      exact ⟨p.value, ⟨p.shorter, rfl⟩, rfl⟩

theorem exists_of_gives_bind {x : Except Error (Read s α)} {f : Read s α → Except Error (Read s β)}
    {b : β} (h : Gives (x >>= f) b rest) : ∃ p, x = .ok p ∧ Gives (f p) b rest := by
  cases x with
  | error e => exact absurd h gives_error
  | ok p => exact ⟨p, rfl, h⟩

theorem Yields.map {read : Reader α} {f : α → β} (h : Yields (fun a => Q (f a)) read) :
    Yields Q (read.map f) := by
  intro s b rest hb
  obtain ⟨a, ha, rfl⟩ := exists_of_gives_map hb
  exact h s a rest ha

/-! ### Elements and members -/

/-- An invariant that every element keeps holds at the end of an array. -/
theorem Yields.elements {next : σ → Option (Reader σ)}
    (hnext : ∀ state read, I state → next state = some read → Yields I read) {first : Bool}
    {state last : σ} (hstate : I state) (h : Gives (elements next first state s) last rest) : I last := by
  fun_induction Json.elements next first state s
  case case2 =>
    obtain ⟨_, h⟩ := h
    cases h
    exact hstate
  case case5 read hread p hp ih | case9 read hread _ p hp _ _ _ _ _ ih =>
    exact ih (hnext _ read hstate hread _ _ _ (gives_of_eq hp)) ((gives_map_widen _).1 h)
  all_goals exact absurd h gives_error

/-- An invariant that every member keeps holds at the end of an object. -/
theorem Yields.members {member : σ → String → Except Error (Reader σ)}
    (hmember : ∀ state key read, I state → member state key = .ok read → Yields I read) {first : Bool}
    {state last : σ} (hstate : I state) (h : Gives (members member first state s) last rest) : I last := by
  fun_induction Json.members member first state s
  case case2 =>
    obtain ⟨_, h⟩ := h
    cases h
    exact hstate
  case case8 read hread _ _ p hp _ ih =>
    exact ih (hmember _ _ read hstate hread _ _ _ (gives_of_eq hp)) ((gives_map_widen _).1 h)
  all_goals exact absurd h gives_error

theorem Yields.items {read : Reader α} (h : Yields P read) :
    Yields (fun l => ∀ a ∈ l, P a) (Reader.items read) := by
  intro s l rest hl
  obtain ⟨acc, hacc, rfl⟩ := exists_of_gives_map hl
  have hall : ∀ a ∈ acc, P a := by
    refine Yields.elements (I := fun acc => ∀ a ∈ acc, P a) ?_ (List.forall_mem_nil _) hacc
    intro state read hstate hread
    cases hread
    exact Yields.map (h.mono fun a ha => List.forall_mem_cons.2 ⟨ha, hstate⟩)
  exact fun a ha => hall a (List.mem_reverse.1 ha)

theorem Yields.entries {read : Reader α} (h : Yields P read) :
    Yields (fun l => ∀ e ∈ l, P e.2) (Reader.entries read) := by
  intro s l rest hl
  obtain ⟨acc, hacc, rfl⟩ := exists_of_gives_map hl
  have hall : ∀ e ∈ acc, P e.2 := by
    refine Yields.members (I := fun acc => ∀ e ∈ acc, P e.2) ?_ (List.forall_mem_nil _) hacc
    intro state key read hstate hread
    cases hread
    exact Yields.map (h.mono fun a ha => List.forall_mem_cons.2 ⟨ha, hstate⟩)
  exact fun e he => hall e (List.mem_reverse.1 he)

/-! ### Readers of lists, maps and values -/

theorem Yields.array {item : Nat → Reader α} (h : Yields P (item d)) :
    Yields (fun l => ∀ a ∈ l, P a) (Reader.array item (d + 1)) := by
  intro s l rest hl
  rw [Reader.array] at hl
  split at hl
  · exact h.items _ l rest (gives_behind.1 (gives_afterSpace.1 hl))
  · exact absurd hl gives_error

theorem Yields.object {value : Nat → Reader α} (h : Yields P (value d)) :
    Yields (fun m => ∀ e ∈ m.entries, P e.2) (Reader.object value (d + 1)) := by
  intro s m rest hm
  rw [Reader.object] at hm
  split at hm
  · obtain ⟨l, hl, rfl⟩ := exists_of_gives_map (gives_behind.1 (gives_afterSpace.1 hm))
    exact fun e he => h.entries _ l rest hl e (OrderedMap.mem_of_mem_entries_ofList he)
  · exact absurd hm gives_error

theorem Yields.form {Q : Json → Prop} {type : String} {form? : Json → Option α}
    (hvalue : Yields Q (Reader.value d)) (h : ∀ j a, Q j → form? j = some a → P a) :
    Yields P (Reader.form type form? d) := by
  intro s a rest ha
  simp only [Reader.form] at ha
  split at ha
  · exact absurd ha gives_error
  · rename_i p hp
    split at ha
    · rename_i hform
      obtain ⟨_, ha⟩ := ha
      cases ha
      exact h _ _ (hvalue _ _ _ (gives_of_eq hp)) hform
    · exact absurd ha gives_error

theorem eq_of_gives_wordAs {w : String} {a b : α} {c : Char} (h : Gives (Reader.wordAs w a c s) b rest) :
    b = a := by
  obtain ⟨_, h⟩ := h
  rw [Reader.wordAs] at h
  split at h
  · cases h
    rfl
  · cases h

theorem yields_numeral (d : Nat) (negative : Bool) : Yields (Fits d) (Reader.numeral negative) := by
  rintro s j rest ⟨_, h⟩
  rw [Reader.numeral] at h
  split at h
  · rename_i hnumeral
    cases h
    rcases numeral_cases hnumeral with ⟨x, rfl⟩ | ⟨m, rfl, hm⟩
    · exact .real d x
    · exact .int d hm
  · cases h

/-- A reader of values yields values that fit, if it does so one level deeper. -/
theorem yields_value_of_deeper (h : ∀ e, d = e + 1 → Yields (Fits e) (Reader.value e)) :
    Yields (Fits d) (Reader.value d) := by
  intro s j rest hj
  rw [gives_value_iff] at hj
  split at hj
  · cases hj
  · exact eq_of_gives_wordAs hj ▸ .null d
  · exact eq_of_gives_wordAs hj ▸ .bool d true
  · exact eq_of_gives_wordAs hj ▸ .bool d false
  · obtain ⟨u, -, rfl⟩ := exists_of_gives_map hj
    exact .string d u
  · exact yields_numeral d true _ _ _ hj
  · obtain ⟨e, rfl, hj⟩ := hj
    obtain ⟨l, hl, rfl⟩ := exists_of_gives_map hj
    exact .array ((h e rfl).items _ _ _ hl)
  · obtain ⟨e, rfl, hj⟩ := hj
    obtain ⟨l, hl, rfl⟩ := exists_of_gives_map hj
    exact .object ((h e rfl).entries _ _ _ hl)
  · exact yields_numeral d false _ _ _ hj.2

theorem yields_value (d : Nat) : Yields (Fits d) (Reader.value d) := by
  induction d with
  | zero => exact yields_value_of_deeper nofun
  | succ d ih => exact yields_value_of_deeper fun e he => Nat.succ.inj he ▸ ih

/-! ### Records -/

section Record

variable {fields : List (Field σ)}
  (hfields : ∀ f ∈ fields, Yields (fun set => ∀ state, I state → I (set state)) (f.read d))

include hfields

theorem yields_next {state : List (Field σ) × σ} {read : Reader (List (Field σ) × σ)}
    (hstate : state.1 ⊆ fields ∧ I state.2) (h : Field.next d state = some read) :
    Yields (fun state => state.1 ⊆ fields ∧ I state.2) read := by
  obtain ⟨left, draft⟩ := state
  cases left with
  | nil => cases h
  | cons f left =>
      obtain ⟨hf, hleft⟩ := List.cons_subset.1 hstate.1
      cases h
      exact Yields.map ((hfields f hf).mono fun set hset => ⟨hleft, hset draft hstate.2⟩)

theorem yields_member {state : σ} {key : String} {read : Reader σ} (hstate : I state)
    (h : Field.member fields d state key = .ok read) : Yields I read := by
  rw [Field.member] at h
  split at h
  · cases h
    exact Yields.map ((yields_true _).mono fun _ _ => hstate)
  · rename_i f hf
    split at h
    · cases h
    · cases h
      exact Yields.map ((hfields f (List.mem_of_find?_eq_some hf)).mono fun set hset => hset state hstate)

/-- A record keeps an invariant that each of its fields keeps. -/
theorem yields_record {name : String} {empty : σ} (hempty : I empty) :
    Yields I (Reader.record name fields empty (d + 1)) := by
  intro s last rest h
  rw [Reader.record] at h
  split at h
  · obtain ⟨p, hp, h⟩ := exists_of_gives_bind (gives_behind.1 (gives_afterSpace.1 h))
    have hlast := Yields.elements (fun _ _ => yields_next hfields) ⟨List.Subset.refl fields, hempty⟩
      (gives_of_eq hp)
    obtain ⟨_, h⟩ := h
    dsimp only at h
    split at h
    · cases h
    · cases h
      exact hlast.2
  · obtain ⟨p, hp, h⟩ := exists_of_gives_bind (gives_behind.1 (gives_afterSpace.1 h))
    have hlast := Yields.members (fun _ _ _ => yields_member hfields) hempty (gives_of_eq hp)
    split at h
    · exact absurd h gives_error
    · obtain ⟨_, h⟩ := h
      cases h
      exact hlast
  · exact absurd h gives_error

end Record

/-- What a text holds has the property of what the reader yields. -/
theorem of_all {read : Nat → Reader α} (h : Yields P (read maxDepth)) {s : String} {a : α}
    (ha : Reader.all read s = .ok a) : P a := by
  simp only [Reader.all] at ha
  split at ha
  · cases ha
  · rename_i hp
    split at ha
    · cases ha
      exact h _ _ _ (gives_of_eq hp)
    · cases ha

end UtilityCss.Json
