import UtilityCss.Proofs.Json.Decoded

/-!
# Records as functions of the value

What a reader takes off the text of a record is what its fields make of the parts of the value, one
after the other (`recordOf?`, `decodes_record`). A change of drafts in which every field takes part
changes the record alike (`recordOf?_map`), and a field is in the end what stands at its place
(`get_of_foldlM_next?`, `get_of_foldlM_member?`).
-/

namespace UtilityCss.Json

variable {α β σ : Type} {s t r rest : List Char} {d : Nat} {j : Json}

/-! ### Readers of records -/

section Record

variable (fields : List (Field σ)) (meaning : String → Json → Option (σ → σ))

/-- The draft of a record with one more member. Members that are no fields are passed over. -/
def member? (draft : σ) (m : String × Json) : Option σ :=
  match fields.find? (·.name = m.1) with
  | none   => some draft
  | some f => if f.isSet draft then none else (meaning m.1 m.2).map (· draft)

/-- The fields that are left of a record and its draft with one more element. -/
def next? (state : List (Field σ) × σ) (j : Json) : Option (List (Field σ) × σ) :=
  match state.1 with
  | []        => none
  | f :: left => (meaning f.name j).map fun set => (left, set state.2)

/-- The draft of the record that a value is. -/
def recordOf? (empty : σ) : Json → Option σ
  | .array l  => do
    let state ← l.foldlM (next? meaning) (fields, empty)
    if state.1.any (·.required) then none else some state.2
  | .object l => do
    let draft ← l.foldlM (member? fields meaning) empty
    if fields.any fun f => f.required && !f.isSet draft then none else some draft
  | _         => none

variable {fields meaning} (hfields : ∀ d, ∀ f ∈ fields, Decodes d (f.read d) (meaning f.name))

include hfields

theorem gives_next_iff {l : List Json} (hl : Elements d true s l r) {empty : σ}
    {last : List (Field σ) × σ} : Gives (elements (Field.next d) true (fields, empty) s) last rest ↔
      l.foldlM (next? meaning) (fields, empty) = some last ∧ rest = r := by
  refine gives_elements_iff (I := fun state => state.1 ⊆ fields) hl ?_ ?_ ?_ (List.Subset.refl fields)
  · rintro ⟨left, draft⟩ read hleft hread
    cases left with
    | nil => cases hread
    | cons f left =>
        cases hread
        exact (hfields d f (hleft List.mem_cons_self)).map _
  · rintro ⟨left, draft⟩ j hnone
    cases left with
    | nil => rfl
    | cons f left => cases hnone
  · rintro ⟨left, draft⟩ j later hleft hlater
    cases left with
    | nil => cases hlater
    | cons f left =>
        obtain ⟨set, -, rfl⟩ := Option.map_eq_some_iff.1 hlater
        exact (List.cons_subset.1 hleft).2

theorem gives_member_iff {l : List (String × Json)} (hl : Members d true s l r) {empty last : σ} :
    Gives (members (Field.member fields d) true empty s) last rest ↔
      l.foldlM (member? fields meaning) empty = some last ∧ rest = r := by
  refine gives_members_iff hl ?_ ?_
  · intro draft key read hread
    simp only [member?]
    rw [Field.member] at hread
    split at hread
    · rename_i hfind
      cases hread
      simp only [hfind]
      exact (decodes_ignored d).map _
    · rename_i f hfind
      have hname : f.name = key := by simpa using List.find?_some hfind
      split at hread
      · cases hread
      · rename_i hset
        cases hread
        simp only [hfind, if_neg hset]
        have hf : Decodes d (f.read d) (meaning key) :=
          hname ▸ hfields d f (List.mem_of_find?_eq_some hfind)
        exact hf.map _
  · intro draft key j e he
    rw [Field.member] at he
    split at he
    · cases he
    · rename_i hfind
      split at he
      · rename_i hset
        simp only [member?, hfind, if_pos hset]
      · cases he

theorem gives_record_array_iff {name : String} (hs : skipSpace s = '[' :: t) {l : List Json}
    (hl : Elements d true t l r) {empty last : σ} :
    Gives (Reader.record name fields empty (d + 1) s) last rest ↔
      recordOf? fields meaning empty (.array l) = some last ∧ rest = r := by
  rw [Reader.record]
  split
  · rename_i hs'
    cases hs.symm.trans hs'
    rw [gives_afterSpace, gives_behind]
    simp only [deeper, recordOf?, Option.bind_eq_bind, Option.bind_eq_some_iff]
    constructor
    · intro h
      obtain ⟨p, hp, h⟩ := exists_of_gives_bind h
      obtain ⟨hfold, hr⟩ := (gives_next_iff hfields hl).1 (gives_of_eq hp)
      split at h
      · exact absurd h gives_error
      · rename_i hrequired
        obtain ⟨_, h⟩ := h
        cases h
        exact ⟨⟨p.value, hfold, if_neg hrequired⟩, hr⟩
    · rintro ⟨⟨state, hfold, hlast⟩, rfl⟩
      split at hlast
      · cases hlast
      · rename_i hrequired
        cases hlast
        refine ((gives_next_iff hfields hl).2 ⟨hfold, rfl⟩).bind fun hlt => ⟨hlt, ?_⟩
        rw [if_neg hrequired]
        rfl
  · rename_i hs'
    cases hs.symm.trans hs'
  · rename_i hne _
    exact absurd hs (hne _)

theorem gives_record_object_iff {name : String} (hs : skipSpace s = '\x7b' :: t)
    {l : List (String × Json)} (hl : Members d true t l r) {empty last : σ} :
    Gives (Reader.record name fields empty (d + 1) s) last rest ↔
      recordOf? fields meaning empty (.object l) = some last ∧ rest = r := by
  rw [Reader.record]
  split
  · rename_i hs'
    cases hs.symm.trans hs'
  · rename_i hs'
    cases hs.symm.trans hs'
    rw [gives_afterSpace, gives_behind]
    simp only [deeper, recordOf?, Option.bind_eq_bind, Option.bind_eq_some_iff]
    constructor
    · intro h
      obtain ⟨p, hp, h⟩ := exists_of_gives_bind h
      obtain ⟨hfold, hr⟩ := (gives_member_iff hfields hl).1 (gives_of_eq hp)
      split at h
      · exact absurd h gives_error
      · rename_i hfind
        obtain ⟨_, h⟩ := h
        cases h
        rw [List.find?_eq_none] at hfind
        have hmissing : ¬ (fields.any fun f => f.required && !f.isSet last) := by
          simpa using hfind
        exact ⟨⟨last, hfold, if_neg hmissing⟩, hr⟩
    · rintro ⟨⟨draft, hfold, hlast⟩, rfl⟩
      split at hlast
      · cases hlast
      · rename_i hmissing
        cases hlast
        refine ((gives_member_iff hfields hl).2 ⟨hfold, rfl⟩).bind fun hlt => ⟨hlt, ?_⟩
        have hfind : fields.find? (fun f => f.required && !f.isSet last) = none := by
          rw [List.find?_eq_none]
          simpa using hmissing
        rw [hfind]
        rfl
  · rename_i hne
    exact absurd hs (hne _)

theorem decodes_record {name : String} {empty : σ} (d : Nat) :
    Decodes d (Reader.record name fields empty d) (recordOf? fields meaning empty) := by
  intro s j r hvalue last rest
  cases valueAt_of_gives hvalue with
  | array hs hd hl =>
      cases hd
      exact gives_record_array_iff hfields hs hl
  | object hs hd hl =>
      cases hd
      exact gives_record_object_iff hfields hs hl
  | string | null | true | false | int | real =>
      constructor
      · intro hgives
        rw [Reader.record] at hgives
        split at hgives
        · rename_i hs
          obtain ⟨l, hl⟩ := ((valueAt_of_gives hvalue).opened hs).2.1 rfl
          cases hl
        · rename_i hs
          obtain ⟨l, hl⟩ := ((valueAt_of_gives hvalue).opened hs).2.2.1 rfl
          cases hl
        · exact absurd hgives gives_error
      · rintro ⟨hnone, -⟩
        cases hnone

end Record

/-! ### Drafts that are changed -/

section Natural

variable {τ : Type} {fields : List (Field σ)} {meaning meaning' : String → Json → Option (σ → σ)}
  {g : σ → σ}

theorem foldlM_map_eq {f : σ → β → Option σ} {f' : τ → β → Option τ} {g : σ → τ}
    (h : ∀ state b, (f state b).map g = f' (g state) b) (l : List β) (state : σ) :
    (l.foldlM f state).map g = l.foldlM f' (g state) := by
  induction l generalizing state with
  | nil => rfl
  | cons b l ih =>
      rw [List.foldlM_cons, List.foldlM_cons, ← h]
      cases f state b with
      | none => rfl
      | some later => exact ih later

variable (hset : ∀ f ∈ fields, ∀ draft, f.isSet (g draft) = f.isSet draft)
  (hmeaning : ∀ key j, (meaning key j).map (fun set draft => g (set draft)) =
    (meaning' key j).map fun set draft => set (g draft))

include hmeaning

theorem map_meaning_apply (key : String) (j : Json) (draft : σ) :
    ((meaning key j).map (· draft)).map g = (meaning' key j).map (· (g draft)) := by
  have h := congrArg (Option.map fun set : σ → σ => set draft) (hmeaning key j)
  rw [Option.map_map, Option.map_map] at h
  rw [Option.map_map]
  exact h

theorem next?_map (state : List (Field σ) × σ) (j : Json) :
    (next? meaning state j).map (Prod.map id g) = next? meaning' (Prod.map id g state) j := by
  obtain ⟨left, draft⟩ := state
  cases left with
  | nil => rfl
  | cons f left =>
      have h := congrArg (Option.map (left, ·)) (map_meaning_apply hmeaning f.name j draft)
      rw [Option.map_map, Option.map_map, Option.map_map] at h
      simp only [next?]
      rw [Option.map_map]
      exact h

include hset

theorem member?_map (draft : σ) (m : String × Json) :
    (member? fields meaning draft m).map g = member? fields meaning' (g draft) m := by
  simp only [member?]
  cases hfind : fields.find? (·.name = m.1) with
  | none => rfl
  | some f =>
      simp only [hset f (List.mem_of_find?_eq_some hfind)]
      split
      · rfl
      · exact map_meaning_apply hmeaning m.1 m.2 draft

/-- A change of drafts that every field takes part in changes the record alike. -/
theorem recordOf?_map (empty : σ) (j : Json) :
    (recordOf? fields meaning empty j).map g = recordOf? fields meaning' (g empty) j := by
  cases j with
  | array l =>
      have h : l.foldlM (next? meaning') (fields, g empty) = _ :=
        (foldlM_map_eq (next?_map hmeaning) l (fields, empty)).symm
      simp only [recordOf?]
      rw [h]
      cases l.foldlM (next? meaning) (fields, empty) with
      | none => rfl
      | some state =>
          simp only [Option.bind_eq_bind, Option.bind_some, Option.map_some, Prod.map, id]
          split <;> rfl
  | object l =>
      have h := foldlM_map_eq (member?_map hset hmeaning) l empty
      simp only [recordOf?]
      rw [← h]
      cases l.foldlM (member? fields meaning) empty with
      | none => rfl
      | some draft =>
          have hany : (fields.any fun f => f.required && !f.isSet (g draft)) =
              fields.any fun f => f.required && !f.isSet draft := by
            rw [Bool.eq_iff_iff, List.any_eq_true, List.any_eq_true]
            exact exists_congr fun f => and_congr_right fun hf => by rw [hset f hf]
          simp only [Option.bind_eq_bind, Option.bind_some, Option.map_some, hany]
          split <;> rfl
  | null | bool | int | real | string => rfl

end Natural

/-! ### One field -/

section Field

variable {fields left : List (Field σ)} {meaning : String → Json → Option (σ → σ)} {f : Field σ}
  {i : Nat} {draft last : σ}

theorem next?_cons (f : Field σ) (left : List (Field σ)) (draft : σ) (j : Json) :
    next? meaning (f :: left, draft) j = (meaning f.name j).map fun set => (left, set draft) := rfl

/-- An element that its field takes for another one can be replaced by it. -/
theorem foldlM_next?_modify {g : Json → Json} (hf : left[i]? = some f)
    (hg : ∀ j, meaning f.name (g j) = meaning f.name j) (l : List Json) (draft : σ) :
    (l.modify i g).foldlM (next? meaning) (left, draft) = l.foldlM (next? meaning) (left, draft) := by
  induction l generalizing left i draft with
  | nil => rw [List.modify_nil]
  | cons j l ih =>
      cases left with
      | nil => cases hf
      | cons f' left =>
          cases i with
          | zero =>
              obtain rfl := Option.some.inj hf
              rw [List.modify_zero_cons, List.foldlM_cons, List.foldlM_cons, next?_cons, next?_cons, hg]
          | succ i =>
              rw [List.modify_succ_cons, List.foldlM_cons, List.foldlM_cons, next?_cons]
              cases meaning f'.name j with
              | none => rfl
              | some set =>
                  have hf' : left[i]? = some f := hf
                  exact ih hf' _

variable {get : σ → Option β} {key : String} {decode : Json → Option β}
  (hother : ∀ {k j set}, k ≠ key → meaning k j = some set → ∀ draft, get (set draft) = get draft)
  (hself : ∀ {j set}, meaning key j = some set →
    ∃ b, decode j = some b ∧ ∀ draft, get (set draft) = some b)

include hother

theorem get_of_foldlM_next?_of_not_mem (hleft : key ∉ left.map Field.name) {l : List Json}
    {last : List (Field σ) × σ} (h : l.foldlM (next? meaning) (left, draft) = some last) :
    get last.2 = get draft := by
  induction l generalizing left draft with
  | nil =>
      cases h
      rfl
  | cons j l ih =>
      rw [List.foldlM_cons] at h
      obtain ⟨later, hone, h⟩ := Option.bind_eq_some_iff.1 h
      cases left with
      | nil => cases hone
      | cons f left =>
          obtain ⟨set, hmeaning, rfl⟩ := Option.map_eq_some_iff.1 hone
          rw [List.map_cons, List.mem_cons, not_or] at hleft
          rw [ih hleft.2 h, hother (Ne.symm hleft.1) hmeaning]

include hself

/-- The element of a field is what the field has in the end. -/
theorem get_of_foldlM_next? (hnodup : (left.map Field.name).Nodup)
    (hf : (left.map Field.name)[i]? = some key) {l : List Json} {last : List (Field σ) × σ}
    (h : l.foldlM (next? meaning) (left, draft) = some last) (hdraft : get draft = none) :
    get last.2 = l[i]?.bind decode := by
  induction l generalizing left i draft with
  | nil =>
      cases h
      exact hdraft
  | cons j l ih =>
      rw [List.foldlM_cons] at h
      obtain ⟨later, hone, h⟩ := Option.bind_eq_some_iff.1 h
      cases left with
      | nil => cases hone
      | cons f left =>
          obtain ⟨set, hmeaning, rfl⟩ := Option.map_eq_some_iff.1 hone
          rw [List.map_cons, List.nodup_cons] at hnodup
          cases i with
          | zero =>
              obtain rfl := Option.some.inj hf
              obtain ⟨b, hb, hset⟩ := hself hmeaning
              rw [get_of_foldlM_next?_of_not_mem hother hnodup.1 h, hset]
              exact hb.symm
          | succ i =>
              have hne : f.name ≠ key := fun e => hnodup.1 (e ▸ List.mem_of_getElem? hf)
              exact ih hnodup.2 hf h ((hother hne hmeaning draft).trans hdraft)

/-- The first member of a field is what the field has in the end, for there is no second. -/
theorem get_of_foldlM_member? (hfind : fields.find? (·.name = key) = some f)
    (hset : ∀ draft, f.isSet draft = (get draft).isSome) {l : List (String × Json)}
    (h : l.foldlM (member? fields meaning) draft = some last) :
    get last = (get draft).or ((l.find? (·.1 = key)).bind fun m => decode m.2) := by
  induction l generalizing draft with
  | nil =>
      cases h
      simp
  | cons m l ih =>
      rw [List.foldlM_cons] at h
      obtain ⟨later, hone, h⟩ := Option.bind_eq_some_iff.1 h
      rw [ih h]
      by_cases hm : m.1 = key
      · simp only [member?, hm, hfind] at hone
        split at hone
        · cases hone
        · rename_i hunset
          obtain ⟨set, hmeaning, rfl⟩ := Option.map_eq_some_iff.1 hone
          obtain ⟨b, hb, hget⟩ := hself hmeaning
          have hnone : get draft = none := by simpa [hset] using hunset
          rw [hget, hnone, List.find?_cons_of_pos (by simpa using hm)]
          simp [hb]
      · rw [List.find?_cons_of_neg (by simpa using hm)]
        simp only [member?] at hone
        split at hone
        · cases hone
          rfl
        · split at hone
          · cases hone
          · obtain ⟨set, hmeaning, rfl⟩ := Option.map_eq_some_iff.1 hone
            rw [hother hm hmeaning]

end Field

end UtilityCss.Json
