import UtilityCss.Proofs.Json.Passed

/-!
# Readers as functions of the value

Where a value can be read, a reader that asks for a shape sees no more of the text than this value. For
every such reader there is a function of the value that tells what it takes off the text: `stringOf?`,
`listOf?`, `mapOf?` and `variantOf?`. So two texts of one value are read alike (`all_eq_ok_iff`).
-/

namespace UtilityCss.Json

variable {α β σ : Type} {s t r rest : List Char} {a : α} {c : Char} {d : Nat} {j : Json}

/-- A quote or an opening bracket tells what a value is. -/
theorem ValueAt.opened (h : ValueAt d s j r) (hs : skipSpace s = c :: t) :
    (c = '"' → ∃ x, j = .string x) ∧ (c = '[' → ∃ l, j = .array l) ∧
      (c = '\x7b' → ∃ l, j = .object l) ∧ (c = 'n' → j = .null) := by
  cases h with
  | string hs' | array hs' | object hs' | null hs' | true hs' | false hs' =>
      cases hs.symm.trans hs'
      simp
  | int h | real h =>
      cases h with
      | negative hs' =>
          cases hs.symm.trans hs'
          simp
      | unsigned hs' hc =>
          cases hs.symm.trans hs'
          refine ⟨?_, ?_, ?_, ?_⟩
          all_goals
            rintro rfl
            exact absurd hc (by decide)

/-! ### Strings and forms -/

/-- The string that a value is. -/
def stringOf? : Json → Option String
  | .string s => some s
  | _         => none

theorem decodes_string (d : Nat) : Decodes d Reader.string stringOf? := by
  intro s j r hvalue x rest
  have hat := valueAt_of_gives hvalue
  constructor
  · intro h
    obtain ⟨t, cs, hs, hcs, rfl⟩ := string_of_gives h
    obtain ⟨y, rfl⟩ := (hat.opened hs).1 rfl
    cases hat with
    | string hs' hcs' =>
        cases hs.symm.trans hs'
        cases hcs.symm.trans hcs'
        exact ⟨rfl, rfl⟩
  · rintro ⟨h, rfl⟩
    cases hat with
    | string hs hcs =>
        cases h
        exact gives_string hs hcs
    | array | object | null | true | false | int | real => cases h

theorem decodes_form {type : String} {form? : Json → Option α} (d : Nat) :
    Decodes d (Reader.form type form? d) form? := by
  intro s j r hvalue a rest
  obtain ⟨hlt, hp⟩ := hvalue
  rw [Reader.form, hp]
  dsimp only
  cases hform : form? j with
  | none =>
      constructor
      · intro h
        exact absurd h gives_error
      · rintro ⟨h, -⟩
        cases h
  | some b =>
      constructor
      · rintro ⟨_, h⟩
        cases h
        exact ⟨rfl, rfl⟩
      · rintro ⟨h, rfl⟩
        cases h
        exact ⟨hlt, rfl⟩

/-! ### Arrays and objects -/

/-- A fold that puts what each item stands for before the earlier ones lists them in reverse. -/
theorem foldlM_cons_eq (f : α → Option β) (l : List α) (acc : List β) :
    l.foldlM (fun acc a => (f a).map (· :: acc)) acc = (l.mapM f).map (·.reverse ++ acc) := by
  induction l generalizing acc with
  | nil => rfl
  | cons a l ih =>
      rw [List.foldlM_cons, List.mapM_cons]
      cases f a with
      | none => rfl
      | some b =>
          show l.foldlM _ (b :: acc) = Option.map _ (l.mapM f >>= fun bs => some (b :: bs))
          rw [ih]
          cases l.mapM f with
          | none => rfl
          | some bs => simp

theorem reverse_eq_of_foldlM_cons {f : α → Option β} {l : List α} {bs : List β} :
    (∃ acc, l.foldlM (fun acc a => (f a).map (· :: acc)) [] = some acc ∧ acc.reverse = bs) ↔
      l.mapM f = some bs := by
  rw [foldlM_cons_eq]
  cases l.mapM f with
  | none => simp
  | some bs' => simp

/-- The list that an array is. -/
def listOf? (item : Json → Option α) : Json → Option (List α)
  | .array l => l.mapM item
  | _        => none

/-- The map that an object is. -/
def mapOf? (value : Json → Option α) : Json → Option (OrderedMap String α)
  | .object l => (l.mapM fun m => (value m.2).map (m.1, ·)).map .ofList
  | _         => none

theorem gives_items_iff {read : Reader α} {decode : Json → Option α} (h : Decodes d read decode)
    {l : List Json} (hl : Elements d true s l r) {as : List α} :
    Gives (Reader.items read s) as rest ↔ l.mapM decode = some as ∧ rest = r := by
  have hfold {acc : List α} :
      Gives (elements (fun l => some (read.map (· :: l))) true [] s) acc rest ↔
        l.foldlM (fun acc j => (decode j).map (· :: acc)) [] = some acc ∧ rest = r := by
    refine gives_elements_iff (I := fun _ => True) hl (fun state read' _ hread => ?_)
      (fun state j hnone => ?_) (fun _ _ _ _ _ => trivial) trivial
    · cases hread
      exact h.map _
    · cases hnone
  rw [Reader.items, gives_map_iff, ← reverse_eq_of_foldlM_cons]
  constructor
  · rintro ⟨acc, hacc, rfl⟩
    obtain ⟨hacc, hr⟩ := hfold.1 hacc
    exact ⟨⟨acc, hacc, rfl⟩, hr⟩
  · rintro ⟨⟨acc, hacc, rfl⟩, hr⟩
    exact ⟨acc, hfold.2 ⟨hacc, hr⟩, rfl⟩

theorem gives_entries_iff {read : Reader α} {decode : Json → Option α} (h : Decodes d read decode)
    {l : List (String × Json)} (hl : Members d true s l r) {as : List (String × α)} :
    Gives (Reader.entries read s) as rest ↔
      (l.mapM fun m => (decode m.2).map (m.1, ·)) = some as ∧ rest = r := by
  have hfold {acc : List (String × α)} :
      Gives (members (fun l key => .ok (read.map fun a => (key, a) :: l)) true [] s) acc rest ↔
        l.foldlM (fun acc m => ((decode m.2).map (m.1, ·)).map (· :: acc)) [] = some acc ∧
          rest = r := by
    refine gives_members_iff hl (fun state key read' hread => ?_) (fun state key j e herror => ?_)
    · cases hread
      simp only [Option.map_map]
      exact h.map _
    · cases herror
  rw [Reader.entries, gives_map_iff, ← reverse_eq_of_foldlM_cons]
  constructor
  · rintro ⟨acc, hacc, rfl⟩
    obtain ⟨hacc, hr⟩ := hfold.1 hacc
    exact ⟨⟨acc, hacc, rfl⟩, hr⟩
  · rintro ⟨⟨acc, hacc, rfl⟩, hr⟩
    exact ⟨acc, hfold.2 ⟨hacc, hr⟩, rfl⟩

theorem gives_array_iff {item : Nat → Reader α} (hs : skipSpace s = '[' :: t) {l : List α} :
    Gives (Reader.array item (d + 1) s) l rest ↔ Gives (Reader.items (item d) t) l rest := by
  rw [Reader.array]
  split
  · rename_i hs'
    cases hs.symm.trans hs'
    rw [gives_afterSpace, gives_behind]
    rfl
  · rename_i hne
    exact absurd hs (hne t)

theorem gives_object_iff {value : Nat → Reader α} (hs : skipSpace s = '\x7b' :: t)
    {m : OrderedMap String α} : Gives (Reader.object value (d + 1) s) m rest ↔
      ∃ l, Gives (Reader.entries (value d) t) l rest ∧ .ofList l = m := by
  rw [Reader.object]
  split
  · rename_i hs'
    cases hs.symm.trans hs'
    rw [gives_afterSpace, gives_behind, gives_map_iff]
    rfl
  · rename_i hne
    exact absurd hs (hne t)

theorem decodes_array {item : Nat → Reader α} {decode : Json → Option α}
    (h : ∀ d, Decodes d (item d) decode) (d : Nat) :
    Decodes d (Reader.array item d) (listOf? decode) := by
  intro s j r hvalue l rest
  cases valueAt_of_gives hvalue with
  | array hs hd hl =>
      cases hd
      rw [gives_array_iff hs]
      exact gives_items_iff (h _) hl
  | object | string | null | true | false | int | real =>
      constructor
      · intro hgives
        rw [Reader.array] at hgives
        split at hgives
        · rename_i hs
          obtain ⟨m, hm⟩ := ((valueAt_of_gives hvalue).opened hs).2.1 rfl
          cases hm
        · exact absurd hgives gives_error
      · rintro ⟨hnone, -⟩
        cases hnone

theorem decodes_object {value : Nat → Reader α} {decode : Json → Option α}
    (h : ∀ d, Decodes d (value d) decode) (d : Nat) :
    Decodes d (Reader.object value d) (mapOf? decode) := by
  intro s j r hvalue m rest
  cases valueAt_of_gives hvalue with
  | object hs hd hl =>
      cases hd
      rw [gives_object_iff hs, mapOf?, Option.map_eq_some_iff]
      simp only [gives_entries_iff (h _) hl]
      constructor
      · rintro ⟨l, ⟨hl, hr⟩, rfl⟩
        exact ⟨⟨l, hl, rfl⟩, hr⟩
      · rintro ⟨⟨l, hl, rfl⟩, hr⟩
        exact ⟨l, ⟨hl, hr⟩, rfl⟩
  | array | string | null | true | false | int | real =>
      constructor
      · intro hgives
        rw [Reader.object] at hgives
        split at hgives
        · rename_i hs
          obtain ⟨l, hl⟩ := ((valueAt_of_gives hvalue).opened hs).2.2.1 rfl
          cases hl
        · exact absurd hgives gives_error
      · rintro ⟨hnone, -⟩
        cases hnone

/-! ### Variants -/

/-- Whether a value is `null`. -/
def nullOf? : Json → Option Unit
  | .null => some ()
  | _     => none

theorem eq_null_of_nullOf? {u : Unit} (h : nullOf? j = some u) : j = .null := by
  cases j with
  | null => rfl
  | bool | int | real | string | array | object => cases h

theorem decodes_unit (d : Nat) : Decodes d Reader.unit nullOf? := by
  intro s j r hvalue a rest
  cases valueAt_of_gives hvalue with
  | null hs hw =>
      rw [Reader.unit]
      split
      · rename_i hs'
        cases hs.symm.trans hs'
        split
        · rename_i hw'
          cases hw.symm.trans hw'
        · rename_i hw'
          cases hw.symm.trans hw'
          constructor
          · rintro ⟨_, h⟩
            cases h
            exact ⟨rfl, rfl⟩
          · rintro ⟨-, rfl⟩
            exact ⟨_, rfl⟩
      · rename_i hne
        exact absurd hs (hne _)
  | array | object | string | true | false | int | real =>
      constructor
      · intro hgives
        rw [Reader.unit] at hgives
        split at hgives
        · rename_i hs
          cases ((valueAt_of_gives hvalue).opened hs).2.2.2 rfl
        · exact absurd hgives gives_error
      · rintro ⟨hnone, -⟩
        cases hnone

/-- The variant that a value names. -/
def variantOf? (variants : List (String × α)) : Json → Option α
  | .string s            => (variants.find? (·.1 = s)).map Prod.snd
  | .object [(s, .null)] => (variants.find? (·.1 = s)).map Prod.snd
  | _                    => none

theorem exists_of_variantOf?_object {variants : List (String × α)} {l : List (String × Json)}
    (h : variantOf? variants (.object l) = some a) : ∃ key, l = [(key, .null)] ∧
      ∃ v, variants.find? (·.1 = key) = some v ∧ v.2 = a := by
  unfold variantOf? at h
  split at h
  · rename_i he
    cases he
  · rename_i he
    cases he
    exact ⟨_, rfl, Option.map_eq_some_iff.1 h⟩
  · cases h

/-- A variant that is a key stands alone with `null`. -/
theorem single_of_gives {named : String → Except Error α} {l : List (String × Json)}
    (hl : Members d true s l r) (h : Gives (Reader.variant.single named s) a rest) :
    ∃ key, l = [(key, .null)] ∧ named key = .ok a ∧ rest = r := by
  rw [Reader.variant.single] at h
  split at h
  swap
  · exact absurd h gives_error
  rename_i hs
  split at h
  · exact absurd h gives_error
  rename_i p hp
  split at h
  · exact absurd h gives_error
  rename_i hnamed
  split at h
  · exact absurd h gives_error
  swap
  · exact absurd h gives_error
  rename_i hcolon
  split at h
  · exact absurd h gives_error
  rename_i q hq
  split at h
  · exact absurd h gives_error
  swap
  · exact absurd h gives_error
  rename_i hend
  obtain ⟨_, h⟩ := h
  cases h
  cases hl with
  | done hs' => cases hs.symm.trans hs'
  | next hs' hc hstart hkey hcolon' hvalue hlater =>
      cases hs.symm.trans hs'
      obtain ⟨-, rfl⟩ := eq_quote_of_keyStart hstart
      obtain ⟨t, cs, ht, hcs, hx⟩ := string_of_gives (gives_of_eq hp)
      cases (skipSpace_cons (by decide) _).symm.trans ht
      cases hkey.symm.trans hcs
      cases hcolon.symm.trans hcolon'
      obtain ⟨hnull, hrest⟩ := (decodes_unit d hvalue).1 (gives_of_eq hq)
      obtain rfl := eq_null_of_nullOf? hnull
      rw [hrest] at hend
      cases hlater with
      | done hend' =>
          cases hend.symm.trans hend'
          exact ⟨_, rfl, hx ▸ hnamed, rfl⟩
      | next hs'' hc'' =>
          cases hend.symm.trans hs''
          exact absurd rfl hc''

theorem gives_single {named : String → Except Error α} {key : String} (hnamed : named key = .ok a)
    (hl : Members d true s [(key, .null)] r) : Gives (Reader.variant.single named s) a r := by
  cases hl with
  | next hs hc hstart hkey hcolon hvalue hlater =>
      obtain ⟨rfl, rfl⟩ := eq_quote_of_keyStart hstart
      cases hlater with
      | done hend =>
          obtain ⟨_, hp⟩ := gives_string (skipSpace_cons (by decide) _) hkey
          obtain ⟨_, hq⟩ := (decodes_unit d hvalue).2 ⟨rfl, rfl⟩
          rw [Reader.variant.single]
          split
          swap
          · rename_i hne
            exact absurd hs (hne _)
          rename_i hs'
          cases hs.symm.trans hs'
          simp only [hp, hnamed]
          split
          · rename_i hcolon'
            cases hcolon.symm.trans hcolon'
          swap
          · rename_i hne
            exact absurd hcolon (hne _)
          rename_i hcolon'
          cases hcolon.symm.trans hcolon'
          simp only [hq]
          split
          · rename_i hend'
            cases hend.symm.trans hend'
          swap
          · rename_i hne
            exact absurd hend (hne _)
          rename_i hend'
          cases hend.symm.trans hend'
          exact ⟨_, rfl⟩

theorem decodes_variant (variants : List (String × α)) (d : Nat) :
    Decodes d (Reader.variant variants d) (variantOf? variants) := by
  intro s j r hvalue a rest
  cases valueAt_of_gives hvalue with
  | string hs hcs =>
      obtain ⟨_, hp⟩ := gives_string (skipSpace_cons (by decide) _) hcs
      rw [Reader.variant]
      split
      · rename_i hs'
        cases hs.symm.trans hs'
      · rename_i hs'
        cases hs.symm.trans hs'
        rw [variantOf?, hp]
        cases hfind : variants.find? (·.1 = String.ofList _) with
        | none => simp [hfind, gives_error]
        | some v =>
            simp only [hfind, gives_afterSpace, Option.map_some, Option.some.injEq]
            constructor
            · rintro ⟨_, h⟩
              cases h
              exact ⟨rfl, rfl⟩
            · rintro ⟨rfl, rfl⟩
              exact ⟨_, rfl⟩
      · rename_i hs'
        cases hs.symm.trans hs'
      · rename_i hne _
        exact absurd hs (hne _)
  | object hs hd hl =>
      cases hd
      rw [Reader.variant]
      split
      · rename_i hs'
        cases hs.symm.trans hs'
      · rename_i hs'
        cases hs.symm.trans hs'
      · rename_i hs'
        cases hs.symm.trans hs'
        rw [gives_afterSpace, gives_behind]
        simp only [deeper]
        constructor
        · intro h
          obtain ⟨key, rfl, hnamed, hr⟩ := single_of_gives hl h
          split at hnamed
          · rename_i hfind
            cases hnamed
            exact ⟨by rw [variantOf?, hfind]; rfl, hr⟩
          · cases hnamed
        · rintro ⟨h, rfl⟩
          obtain ⟨key, rfl, v, hfind, rfl⟩ := exists_of_variantOf?_object h
          exact gives_single (by rw [hfind]) hl
      · rename_i hne
        exact absurd hs (hne _)
  | array | null | true | false | int | real =>
      constructor
      · intro hgives
        rw [Reader.variant] at hgives
        split at hgives
        · exact absurd hgives gives_error
        · rename_i hs
          obtain ⟨x, hx⟩ := ((valueAt_of_gives hvalue).opened hs).1 rfl
          cases hx
        · rename_i hs
          obtain ⟨l, hl⟩ := ((valueAt_of_gives hvalue).opened hs).2.2.1 rfl
          cases hl
        · exact absurd hgives gives_error
      · rintro ⟨hnone, -⟩
        cases hnone

/-! ### Whole texts -/

theorem all_eq_ok_iff_gives {read : Nat → Reader α} {s : String} :
    Reader.all read s = .ok a ↔
      ∃ rest, Gives (read maxDepth s.toList) a rest ∧ skipSpace rest = [] := by
  unfold Reader.all
  cases h : read maxDepth s.toList with
  | error e => exact ⟨nofun, fun ⟨_, hgives, _⟩ => absurd hgives gives_error⟩
  | ok p =>
      dsimp only
      constructor
      · intro hall
        split at hall
        · rename_i hrest
          cases hall
          exact ⟨p.rest, gives_of_eq rfl, hrest⟩
        · cases hall
      · rintro ⟨rest, hgives, hrest⟩
        obtain ⟨rfl, rfl⟩ := (gives_of_eq rfl).unique hgives
        rw [if_pos hrest]

/-- What is read off a text that holds a value is what this value is read as. -/
theorem all_eq_ok_iff {read : Nat → Reader α} {decode : Json → Option α}
    (h : ∀ d, Decodes d (read d) decode) {s : String} (hj : Reader.all Reader.value s = .ok j) :
    Reader.all read s = .ok a ↔ decode j = some a := by
  obtain ⟨rest, hvalue, hrest⟩ := all_eq_ok_iff_gives.1 hj
  rw [all_eq_ok_iff_gives]
  constructor
  · rintro ⟨rest', hgives, -⟩
    exact ((h maxDepth hvalue).1 hgives).1
  · intro hdecode
    exact ⟨rest, (h maxDepth hvalue).2 ⟨hdecode, rfl⟩, hrest⟩

end UtilityCss.Json
