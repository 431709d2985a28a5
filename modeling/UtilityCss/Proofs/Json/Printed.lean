import UtilityCss.Proofs.Json.Lexeme
import UtilityCss.Proofs.Json.Result
import UtilityCss.Proofs.Json.Sorted
import UtilityCss.Proofs.OrderedMap

/-!
# Printed values read back

A reader restores a value if it takes the printed value off the head of a text, at any depth of
indentation, whatever of a printed document follows (`Restores`). Strings are restored, and what is
made of parts is restored by a reader of such parts: arrays (`restores_array`), objects
(`restores_object`), records (`restores_record`) and values of any kind (`restores_value`), as long as
no binary64 number stands in them and their brackets are not too deep for the reader.
-/

namespace UtilityCss.Json

variable {α β σ : Type} {s t r rest rest' : List Char} {a : α} {j : Json} {d k : Nat}

/-! ### The text of a block -/

/-- The text of the start of a line. -/
def lineStart (k : Nat) : List Char := '\n' :: List.replicate (2 * k) ' '

/-- The parts of a block that are not the first, and its end. -/
def laterParts (k : Nat) (closer : Char) : List (List Char) → List Char
  | []      => lineStart k ++ [closer]
  | t :: ts => ',' :: lineStart (k + 1) ++ t ++ laterParts k closer ts

/-- The parts of a block behind its bracket, and its end. -/
def parts (k : Nat) (closer : Char) : List (List Char) → List Char
  | []      => [closer]
  | t :: ts => lineStart (k + 1) ++ t ++ laterParts k closer ts

/-- A member of an object. -/
def memberText (k : Nat) (m : String × Json) : List Char :=
  '"' :: m.1.toList.flatMap escapeChar ++ '"' :: ':' :: ' ' :: (prettyAt k m.2).toList

theorem toList_newline (k : Nat) : (newline k).toList = lineStart k := String.toList_ofList

theorem intercalate_append_end (k : Nat) (closer : Char) (t : List Char) (ts : List (List Char)) :
    (',' :: lineStart (k + 1)).intercalate (t :: ts) ++ (lineStart k ++ [closer]) =
      t ++ laterParts k closer ts := by
  induction ts generalizing t with
  | nil => rw [List.intercalate_singleton, laterParts]
  | cons u ts ih =>
      rw [List.intercalate_cons_cons, List.append_assoc, ih, laterParts]
      simp only [List.append_assoc]

theorem toList_block (opener closer : Char) (k : Nat) (ts : List String) :
    (block (String.singleton opener) (String.singleton closer) k ts).toList =
      opener :: parts k closer (ts.map String.toList) := by
  cases ts with
  | nil => simp [block, parts]
  | cons t ts =>
      have hsep : ("," ++ newline (k + 1)).toList = ',' :: lineStart (k + 1) := by
        rw [String.toList_append, toList_newline]
        rfl
      rw [block, if_neg (by exact Bool.false_ne_true)]
      simp only [String.toList_append, String.toList_singleton, String.toList_intercalate, hsep,
        toList_newline, List.map_cons, parts, List.nil_append, List.cons_append,
        List.append_assoc]
      rw [intercalate_append_end]

theorem toList_prettyAt_array (k : Nat) (l : List Json) :
    (prettyAt k (.array l)).toList =
      '[' :: parts k ']' (l.map fun a => (prettyAt (k + 1) a).toList) := by
  have hitems : prettyItems (k + 1) l = l.map (prettyAt (k + 1)) := by
    induction l with
    | nil => rfl
    | cons a l ih => rw [prettyItems, ih, List.map_cons]
  have h := toList_block '[' ']' k (l.map (prettyAt (k + 1)))
  rw [List.map_map] at h
  rw [prettyAt, hitems]
  exact h

theorem toList_prettyAt_object (k : Nat) (l : List (String × Json)) :
    (prettyAt k (.object l)).toList = '\x7b' :: parts k '\x7d' (l.map (memberText (k + 1))) := by
  have hmembers : (prettyMembers (k + 1) l).map String.toList = l.map (memberText (k + 1)) := by
    induction l with
    | nil => rfl
    | cons m l ih =>
        rw [prettyMembers, List.map_cons, List.map_cons, ih]
        simp [memberText, quoted]
  rw [← hmembers, prettyAt]
  exact toList_block '\x7b' '\x7d' k _

/-! ### Restored values -/

/-- What may follow a value in a printed document. -/
def FollowsValue (s : List Char) : Prop := ∀ c ∈ s.head?, c = ',' ∨ c = '\n'

theorem FollowsValue.endsNumeral (h : FollowsValue s) : EndsNumeral s := by
  intro c hc
  rcases h c hc with rfl | rfl <;> decide

theorem followsValue_laterParts (k : Nat) (closer : Char) (ts : List (List Char)) (rest : List Char) :
    FollowsValue (laterParts k closer ts ++ rest) := by
  cases ts with
  | nil => exact fun c hc => .inr (Option.mem_some.1 hc).symm
  | cons t ts => exact fun c hc => .inl (Option.mem_some.1 hc).symm

/-- What a value begins with, to a reader of arrays. -/
def BeginsValue (s : List Char) : Prop := ∃ c r, s = c :: r ∧ isSpace c = false ∧ c ≠ ']'

/-- The reader takes the printed value `j` for `a`, wherever it stands in a printed document. -/
structure Restores (read : Reader α) (j : Json) (a : α) : Prop where
  begins : ∀ k, BeginsValue (prettyAt k j).toList
  gives  : ∀ k s rest, skipSpace s = (prettyAt k j).toList ++ rest → FollowsValue rest →
    Gives (read s) a rest

theorem BeginsValue.skipSpace_append (h : BeginsValue t) (rest : List Char) :
    skipSpace (t ++ rest) = t ++ rest := by
  obtain ⟨c, r, rfl, hc, -⟩ := h
  exact skipSpace_cons hc _

theorem skipSpace_lineStart_append (k : Nat) (s : List Char) :
    skipSpace (lineStart k ++ s) = skipSpace s := by
  refine skipSpace_append (fun c hc => ?_) s
  rcases List.mem_cons.1 hc with rfl | hc
  · rfl
  · rw [List.eq_of_mem_replicate hc]
    rfl

theorem toList_prettyAt_string (k : Nat) (u : String) :
    (prettyAt k (.string u)).toList = '"' :: u.toList.flatMap escapeChar ++ ['"'] := by
  simp only [prettyAt, compact, quoted, String.toList_ofList]

theorem toList_prettyAt_ofNat (k n : Nat) :
    (prettyAt k (.int (.ofNat n))).toList = Nat.toDigits 10 n := by
  simp only [prettyAt, toList_compact_ofNat]

theorem toList_prettyAt_negSucc (k n : Nat) :
    (prettyAt k (.int (.negSucc n))).toList = '-' :: Nat.toDigits 10 (n + 1) := by
  simp only [prettyAt, toList_compact_negSucc]

theorem toList_prettyAt_null (k : Nat) : (prettyAt k .null).toList = ['n', 'u', 'l', 'l'] := by
  simp only [prettyAt, compact]
  rfl

theorem toList_prettyAt_true (k : Nat) : (prettyAt k (.bool true)).toList = ['t', 'r', 'u', 'e'] := by
  simp only [prettyAt, compact]
  rfl

theorem toList_prettyAt_false (k : Nat) :
    (prettyAt k (.bool false)).toList = ['f', 'a', 'l', 's', 'e'] := by
  simp only [prettyAt, compact]
  rfl

theorem exists_toDigits_eq_cons (n : Nat) :
    ∃ c r, Nat.toDigits 10 n = c :: r ∧ c.isDigit ∧ isSpace c = false ∧ c ≠ ']' := by
  obtain ⟨c, r, hr⟩ := List.exists_cons_of_ne_nil (Nat.toDigits_ne_nil (n := n) (b := 10))
  have hc : c.isDigit := Nat.isDigit_of_mem_toDigits (by decide) (by decide)
    (hr ▸ List.mem_cons_self : c ∈ Nat.toDigits 10 n)
  have hne : ∀ b : Char, b.isDigit = false → c ≠ b := by
    rintro b hb rfl
    exact absurd hc (by rw [hb]; exact Bool.false_ne_true)
  refine ⟨c, r, hr, hc, ?_, hne _ rfl⟩
  simp [isSpace, hne ' ' rfl, hne '\n' rfl, hne '\t' rfl, hne '\r' rfl]

theorem beginsValue_prettyAt (hj : ∀ x, j ≠ .real x) (k : Nat) : BeginsValue (prettyAt k j).toList := by
  cases j with
  | null => exact ⟨'n', _, toList_prettyAt_null k, rfl, by decide⟩
  | bool b =>
      cases b with
      | true => exact ⟨'t', _, toList_prettyAt_true k, rfl, by decide⟩
      | false => exact ⟨'f', _, toList_prettyAt_false k, rfl, by decide⟩
  | int n =>
      cases n with
      | ofNat n =>
          obtain ⟨c, r, hr, -, hspace, hc⟩ := exists_toDigits_eq_cons n
          exact ⟨c, r, (toList_prettyAt_ofNat k n).trans hr, hspace, hc⟩
      | negSucc n => exact ⟨'-', _, toList_prettyAt_negSucc k n, rfl, by decide⟩
  | real x => exact absurd rfl (hj x)
  | string u => exact ⟨'"', _, toList_prettyAt_string k u, rfl, by decide⟩
  | array l => exact ⟨'[', _, toList_prettyAt_array k l, rfl, by decide⟩
  | object l => exact ⟨'\x7b', _, toList_prettyAt_object k l, rfl, by decide⟩

variable {read : Reader α}

theorem Restores.map (f : α → β) (h : Restores read j a) : Restores (read.map f) j (f a) :=
  ⟨h.begins, fun k s rest hs hrest => (h.gives k s rest hs hrest).map f⟩

theorem prettyAt_string_append (k : Nat) (u : String) (rest : List Char) :
    (prettyAt k (.string u)).toList ++ rest = '"' :: (u.toList.flatMap escapeChar ++ '"' :: rest) := by
  rw [toList_prettyAt_string, List.append_assoc, List.cons_append, List.singleton_append]

theorem gives_quoted {u : String}
    (hs : skipSpace s = '"' :: (u.toList.flatMap escapeChar ++ '"' :: rest)) :
    Gives (Reader.string s) u rest := by
  have hstring := gives_string hs (stringFrom_flatMap_escapeChar u.toList rest)
  rwa [String.ofList_toList] at hstring

theorem restores_string (u : String) : Restores .string (.string u) u where
  begins := beginsValue_prettyAt nofun
  gives k _ rest hs _ := gives_quoted (hs.trans (prettyAt_string_append k u rest))

/-! ### Arrays -/

/-- A value on a line of its own. -/
theorem Restores.gives_lineStart (h : Restores read j a) (k : Nat) (hrest : FollowsValue rest) :
    ∃ c r, skipSpace (lineStart k ++ ((prettyAt k j).toList ++ rest)) = c :: r ∧ c ≠ ']' ∧
      Gives (read (lineStart k ++ ((prettyAt k j).toList ++ rest))) a rest := by
  have hskip : skipSpace (lineStart k ++ ((prettyAt k j).toList ++ rest)) =
      (prettyAt k j).toList ++ rest := by
    rw [skipSpace_lineStart_append, (h.begins k).skipSpace_append]
  obtain ⟨c, t, ht, -, hc⟩ := h.begins k
  exact ⟨c, t ++ rest, by rw [hskip, ht]; rfl, hc, h.gives k _ _ hskip hrest⟩

/-- The elements of an array behind the first. -/
theorem gives_laterElements {f : α → Json} {l : List α} (h : ∀ a ∈ l, Restores read (f a) a) (k : Nat)
    (acc : List α) (rest : List Char) :
    Gives (elements (fun l => some (read.map (· :: l))) false acc
      (laterParts k ']' (l.map fun a => (prettyAt (k + 1) (f a)).toList) ++ rest))
      (l.reverse ++ acc) rest := by
  induction l generalizing acc with
  | nil =>
      refine gives_elements_end ?_
      rw [List.map_nil, laterParts, List.append_assoc, skipSpace_lineStart_append]
      rfl
  | cons a l ih =>
      obtain ⟨ha, hl⟩ := List.forall_mem_cons.1 h
      rw [List.map_cons, laterParts, List.append_assoc, List.append_assoc, List.reverse_cons,
        List.append_assoc]
      obtain ⟨c, r, hr, hc, hread⟩ := ha.gives_lineStart (k + 1) (followsValue_laterParts k ']' _ rest)
      exact gives_elements_next (skipSpace_cons rfl _) hr hc rfl (hread.map (· :: acc)) (ih hl (a :: acc))

/-- The elements of a printed array. -/
theorem gives_items {f : α → Json} {l : List α} (h : ∀ a ∈ l, Restores read (f a) a)
    (k : Nat) (rest : List Char) :
    Gives (Reader.items read (parts k ']' (l.map fun a => (prettyAt (k + 1) (f a)).toList) ++ rest))
      l rest := by
  suffices hrev : Gives (elements (fun l => some (read.map (· :: l))) true []
      (parts k ']' (l.map fun a => (prettyAt (k + 1) (f a)).toList) ++ rest)) l.reverse rest by
    have hitems := hrev.map List.reverse
    rwa [List.reverse_reverse] at hitems
  cases l with
  | nil => exact gives_elements_end (skipSpace_cons rfl _)
  | cons a l =>
      obtain ⟨ha, hl⟩ := List.forall_mem_cons.1 h
      rw [List.map_cons, parts, List.append_assoc, List.append_assoc, List.reverse_cons]
      obtain ⟨c, r, hr, hc, hread⟩ := ha.gives_lineStart (k + 1) (followsValue_laterParts k ']' _ rest)
      exact gives_elements_first hr hc rfl (hread.map (· :: [])) (gives_laterElements hl k [a] rest)

theorem restores_array {item : Nat → Reader α} {f : α → Json} {l : List α}
    (h : ∀ a ∈ l, Restores (item d) (f a) a) :
    Restores (Reader.array item (d + 1)) (.array (l.map f)) l where
  begins := beginsValue_prettyAt nofun
  gives k s rest hs hrest := by
    rw [toList_prettyAt_array, List.map_map] at hs
    have hitems := gives_items h k rest
    rw [Reader.array]
    split
    · rename_i hs'
      cases hs.symm.trans hs'
      exact gives_afterSpace.2 (gives_behind.2 hitems)
    · rename_i hne
      exact (hne _ hs).elim

/-! ### Objects -/

/-- The readers of the members take the printed members one after the other, from a state to a state. -/
inductive Collects (member : σ → String → Except Error (Reader σ)) :
    σ → List (String × Json) → σ → Prop where
  | nil (state : σ) : Collects member state [] state
  | cons {state later last : σ} {key : String} {j : Json} {l : List (String × Json)} {read : Reader σ}
      (hmember : member state key = .ok read) (hread : Restores read j later)
      (hlater : Collects member later l last) : Collects member state ((key, j) :: l) last

variable {member : σ → String → Except Error (Reader σ)} {state later last : σ} {key : String}
  {l : List (String × Json)} {readState : Reader σ}

/-- A member whose quote has been found. -/
theorem gives_member {first : Bool} {c : Char} (hs : skipSpace s = c :: r) (hc : c ≠ '\x7d')
    (hstart : keyStart first c r = .ok (key.toList.flatMap escapeChar ++
      '"' :: ':' :: ' ' :: ((prettyAt k j).toList ++ rest)))
    (hmember : member state key = .ok readState) (hread : Restores readState j later)
    (hrest : FollowsValue rest) (hlater : Gives (members member false later rest) last rest') :
    Gives (members member first state s) last rest' := by
  have hvalue : Gives (readState (' ' :: ((prettyAt k j).toList ++ rest))) later rest := by
    have hblank : ∀ c ∈ [' '], isSpace c := List.forall_mem_singleton.2 rfl
    exact hread.gives k _ _ ((skipSpace_append hblank _).trans ((hread.begins k).skipSpace_append rest))
      hrest
  exact gives_members_next hs hc hstart (stringFrom_flatMap_escapeChar key.toList _)
    (by rw [String.ofList_toList]; exact hmember) (skipSpace_cons rfl _) hvalue hlater

theorem keyStart_comma (h : skipSpace r = '"' :: t) : keyStart false ',' r = .ok t := by
  rw [keyStart, if_neg Bool.false_ne_true, if_pos rfl, h]
  rfl

theorem memberText_append (k : Nat) (key : String) (j : Json) (s : List Char) :
    memberText k (key, j) ++ s = '"' :: (key.toList.flatMap escapeChar ++
      '"' :: ':' :: ' ' :: ((prettyAt k j).toList ++ s)) := by
  simp only [memberText, List.cons_append, List.append_assoc]

/-- The members of an object behind the first. -/
theorem gives_laterMembers (h : Collects member state l last) (k : Nat) (rest : List Char) :
    Gives (members member false state (laterParts k '\x7d' (l.map (memberText (k + 1))) ++ rest))
      last rest := by
  induction h with
  | nil state =>
      refine gives_members_end ?_
      rw [List.map_nil, laterParts, List.append_assoc, skipSpace_lineStart_append]
      rfl
  | cons hmember hread _ ih =>
      rw [List.map_cons, laterParts, List.append_assoc, List.append_assoc, memberText_append]
      exact gives_member (skipSpace_cons rfl _) (by decide)
        (keyStart_comma ((skipSpace_lineStart_append _ _).trans (skipSpace_cons rfl _)))
        hmember hread (followsValue_laterParts k '\x7d' _ rest) ih

/-- The members of a printed object. -/
theorem gives_members (h : Collects member state l last) (k : Nat) (rest : List Char) :
    Gives (members member true state (parts k '\x7d' (l.map (memberText (k + 1))) ++ rest))
      last rest := by
  cases h with
  | nil => exact gives_members_end (skipSpace_cons rfl _)
  | cons hmember hread hlater =>
      rw [List.map_cons, parts, List.append_assoc, List.append_assoc, memberText_append]
      exact gives_member ((skipSpace_lineStart_append _ _).trans (skipSpace_cons rfl _)) (by decide) rfl
        hmember hread (followsValue_laterParts k '\x7d' _ rest) (gives_laterMembers hlater k rest)

theorem collects_entries {read : Reader α} {f : α → Json} {l : List (String × α)}
    (h : ∀ e ∈ l, Restores read (f e.2) e.2) (acc : List (String × α)) :
    Collects (fun l key => .ok (read.map fun a => (key, a) :: l)) acc (l.map fun e => (e.1, f e.2))
      (l.reverse ++ acc) := by
  induction l generalizing acc with
  | nil => exact .nil acc
  | cons e l ih =>
      obtain ⟨he, hl⟩ := List.forall_mem_cons.1 h
      rw [List.reverse_cons, List.append_assoc]
      exact .cons rfl (he.map _) (ih hl (e :: acc))

theorem gives_entries {f : α → Json} {l : List (String × α)} (h : ∀ e ∈ l, Restores read (f e.2) e.2)
    (k : Nat) (rest : List Char) :
    Gives (Reader.entries read
      (parts k '\x7d' ((l.map fun e => (e.1, f e.2)).map (memberText (k + 1))) ++ rest)) l rest := by
  have hentries := (gives_members (collects_entries h []) k rest).map List.reverse
  rwa [List.append_nil, List.reverse_reverse] at hentries

theorem restores_object {value : Nat → Reader α} {f : α → Json} {m : OrderedMap String α}
    (h : ∀ e ∈ m.entries, Restores (value d) (f e.2) e.2) :
    Restores (Reader.object value (d + 1)) (.object (m.entries.map fun e => (e.1, f e.2))) m where
  begins := beginsValue_prettyAt nofun
  gives k s rest hs hrest := by
    rw [toList_prettyAt_object] at hs
    have hentries := gives_entries h k rest
    rw [Reader.object]
    split
    · rename_i hs'
      cases hs.symm.trans hs'
      have hobject := hentries.map OrderedMap.ofList
      rw [OrderedMap.ofList_entries] at hobject
      exact gives_afterSpace.2 (gives_behind.2 hobject)
    · rename_i hne
      exact (hne _ hs).elim

/-! ### Values of any kind -/

/-- A value without binary64 numbers is restored, if its brackets are not too deep. -/
theorem restores_value (hfits : Fits d j) (hwhole : IsWhole j) : Restores (Reader.value d) j j := by
  induction hfits with
  | null d =>
      refine ⟨beginsValue_prettyAt nofun, fun k s rest hs _ => gives_value_iff.2 ?_⟩
      rw [hs, toList_prettyAt_null]
      exact gives_wordAs rfl
  | bool d b =>
      refine ⟨beginsValue_prettyAt nofun, fun k s rest hs _ => gives_value_iff.2 ?_⟩
      cases b with
      | true =>
          rw [hs, toList_prettyAt_true]
          exact gives_wordAs rfl
      | false =>
          rw [hs, toList_prettyAt_false]
          exact gives_wordAs rfl
  | @int d n hn =>
      refine ⟨beginsValue_prettyAt nofun, fun k s rest hs hrest => ?_⟩
      cases n with
      | ofNat n =>
          have hnumeral := gives_numeral (numeral_ofNat hn hrest.endsNumeral)
          obtain ⟨c, r, hr, hdigit, -, -⟩ := exists_toDigits_eq_cons n
          rw [toList_prettyAt_ofNat, hr] at hs
          rw [hr] at hnumeral
          exact (gives_value_of_isDigit hs hdigit).2 hnumeral
      | negSucc n =>
          rw [gives_value_iff, hs, toList_prettyAt_negSucc]
          exact gives_numeral (numeral_negSucc hn hrest.endsNumeral)
  | real => cases hwhole
  | string d u =>
      refine ⟨beginsValue_prettyAt nofun, fun k s rest hs _ => gives_value_iff.2 ?_⟩
      rw [hs, prettyAt_string_append]
      exact (gives_quoted (skipSpace_cons rfl _)).map Json.string
  | @array d l _ ih =>
      refine ⟨beginsValue_prettyAt nofun, fun k s rest hs _ => gives_value_iff.2 ?_⟩
      have hl : ∀ a ∈ l, Restores (Reader.value d) a a := by
        cases hwhole with
        | array hwhole => exact fun a ha => ih a ha (hwhole a ha)
      rw [hs, toList_prettyAt_array]
      exact ⟨d, rfl, (gives_items (f := fun a => a) hl k rest).map Json.array⟩
  | @object d l _ ih =>
      refine ⟨beginsValue_prettyAt nofun, fun k s rest hs _ => gives_value_iff.2 ?_⟩
      have hl : ∀ m ∈ l, Restores (Reader.value d) m.2 m.2 := by
        cases hwhole with
        | object hwhole => exact fun m hm => ih m hm (hwhole m hm)
      have hentries := (gives_entries (f := fun a => a) hl k rest).map Json.object
      rw [List.map_id'] at hentries
      rw [hs, toList_prettyAt_object]
      exact ⟨d, rfl, hentries⟩

/-! ### Forms, variants and records -/

theorem restores_form {type : String} {form? : Json → Option α} (h : Restores (Reader.value d) j j)
    (hform : form? j = some a) : Restores (Reader.form type form? d) j a := by
  refine ⟨h.begins, fun k s rest hs hrest => ?_⟩
  obtain ⟨hlt, hvalue⟩ := h.gives k s rest hs hrest
  simp only [Reader.form, hvalue, hform]
  exact ⟨hlt, rfl⟩

theorem restores_variant {variants : List (String × α)} {name : String} {v : String × α}
    (h : variants.find? (·.1 = name) = some v) :
    Restores (Reader.variant variants d) (.string name) v.2 := by
  refine ⟨beginsValue_prettyAt nofun, fun k s rest hs _ => ?_⟩
  rw [prettyAt_string_append] at hs
  obtain ⟨hlt, hstring⟩ : Gives (Reader.string ('"' :: (name.toList.flatMap escapeChar ++ '"' :: rest)))
      name rest := gives_quoted (skipSpace_cons rfl _)
  rw [Reader.variant]
  split
  · rename_i hs'
    cases hs.symm.trans hs'
  · rename_i hs'
    cases hs.symm.trans hs'
    simp only [hstring, h]
    exact gives_afterSpace.2 ⟨hlt, rfl⟩
  · rename_i hs'
    cases hs.symm.trans hs'
  · rename_i hne _
    exact (hne _ hs).elim

/-- A member of a record that its field takes. -/
theorem Collects.field {fields : List (Field σ)} {f : Field σ} {set : σ → σ} {draft last : σ}
    (hfind : fields.find? (·.name = key) = some f) (hset : f.isSet draft = false)
    (hread : Restores (f.read d) j set) (hlater : Collects (Field.member fields d) (set draft) l last) :
    Collects (Field.member fields d) draft ((key, j) :: l) last := by
  refine .cons ?_ (hread.map fun set => set draft) hlater
  rw [Field.member, hfind]
  exact if_neg (by rw [hset]; exact Bool.false_ne_true)

/-- A record is restored from the members that its fields take. -/
theorem restores_record {name : String} {fields : List (Field σ)} {empty : σ}
    (h : Collects (Field.member fields d) empty l last)
    (hset : fields.find? (fun f => f.required && !f.isSet last) = none) :
    Restores (Reader.record name fields empty (d + 1)) (.object l) last := by
  refine ⟨beginsValue_prettyAt nofun, fun k s rest hs _ => ?_⟩
  rw [toList_prettyAt_object, List.cons_append] at hs
  rw [Reader.record]
  split
  · rename_i hs'
    cases hs.symm.trans hs'
  · rename_i hs'
    cases hs.symm.trans hs'
    refine gives_afterSpace.2 (gives_behind.2 ((gives_members h k rest).bind fun hlt => ?_))
    simp only [hset]
    exact ⟨hlt, rfl⟩
  · rename_i hne
    exact (hne _ hs).elim

/-- A text that holds only a printed value. -/
theorem all_pretty {read : Nat → Reader α} (h : Restores (read maxDepth) j a) :
    Reader.all read j.pretty = .ok a := by
  have hs : skipSpace j.pretty.toList = (prettyAt 0 j).toList ++ [] := by
    have hbegins := (h.begins 0).skipSpace_append []
    rwa [List.append_nil] at hbegins ⊢
  obtain ⟨hlt, hread⟩ := h.gives 0 _ [] hs nofun
  simp only [Reader.all, hread]
  rfl

end UtilityCss.Json
