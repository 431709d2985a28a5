import UtilityCss.Proofs.Json.Yield

/-!
# The parts of arrays and objects

Where a value of any kind can be read, an array is a row of elements (`Elements`) and an object a row
of members (`Members`), each with its value and the text behind it. So another reader of the same
brackets meets the same parts: what it gives is what its steps make of their values, one after the
other (`gives_elements_iff`, `gives_members_iff`), if each step reads what it decodes (`Decodes`).
-/

namespace UtilityCss.Json

variable {α β σ : Type} {s t u v r rest rest' : List Char} {a b : α} {c : Char} {d : Nat} {j : Json}
  {first : Bool} {state last : σ}

/-! ### Results -/

theorem Gives.unique {x : Except Error (Read s α)} (h : Gives x a rest) (h' : Gives x b rest') :
    a = b ∧ rest = rest' := by
  obtain ⟨_, h⟩ := h
  obtain ⟨_, h'⟩ := h'
  cases h.symm.trans h'
  exact ⟨rfl, rfl⟩

theorem gives_map_iff {x : Except Error (Read s α)} {f : α → β} {b : β} :
    Gives (x.map (·.map f)) b rest ↔ ∃ a, Gives x a rest ∧ f a = b :=
  ⟨exists_of_gives_map, fun ⟨_, h, e⟩ => e ▸ h.map f⟩

/-- What the reader takes off a text is what `decode` makes of the value that can be read there. -/
def Decodes (d : Nat) (read : Reader α) (decode : Json → Option α) : Prop :=
  ∀ ⦃s j r⦄, Gives (Reader.value d s) j r → ∀ {a rest}, Gives (read s) a rest ↔
    decode j = some a ∧ rest = r

theorem Decodes.map {read : Reader α} {decode : Json → Option α} (h : Decodes d read decode)
    (f : α → β) : Decodes d (read.map f) fun j => (decode j).map f := by
  intro s j r hvalue b rest
  rw [Reader.map, gives_map_iff, Option.map_eq_some_iff]
  constructor
  · rintro ⟨a, ha, rfl⟩
    obtain ⟨hdecode, hrest⟩ := (h hvalue).1 ha
    exact ⟨⟨a, hdecode, rfl⟩, hrest⟩
  · rintro ⟨⟨a, hdecode, rfl⟩, hrest⟩
    exact ⟨a, (h hvalue).2 ⟨hdecode, hrest⟩, rfl⟩

/-! ### Elements -/

/-- Elements with the values `l` up to the end of an array, the first of them behind its bracket or a
later one behind another element. -/
inductive Elements (d : Nat) : Bool → List Char → List Json → List Char → Prop
  | done {first : Bool} {s r : List Char} (hs : skipSpace s = ']' :: r) : Elements d first s [] r
  | first {s t s' r : List Char} {c : Char} {j : Json} {l : List Json} (hs : skipSpace s = c :: t)
      (hc : c ≠ ']') (hvalue : Gives (Reader.value d s) j s') (hlater : Elements d false s' l r) :
      Elements d true s (j :: l) r
  | next {s t u s' r : List Char} {c : Char} {j : Json} {l : List Json}
      (hs : skipSpace s = ',' :: t) (ht : skipSpace t = c :: u) (hc : c ≠ ']')
      (hvalue : Gives (Reader.value d t) j s') (hlater : Elements d false s' l r) :
      Elements d false s (j :: l) r

/-- The items of an array are its elements. -/
theorem elements_of_gives {acc l : List Json} (h : Gives (elements
    (fun l => some ((Reader.value d).map (· :: l))) first acc s) l r) :
    ∃ m, l = m.reverse ++ acc ∧ Elements d first s m r := by
  generalize hnext : (fun l => some ((Reader.value d).map (· :: l))) = next at h
  fun_induction Json.elements next first acc s
  case case2 hs _ =>
    obtain ⟨_, h⟩ := h
    cases h
    exact ⟨[], rfl, .done hs⟩
  case case5 hs _ hc read hread p hp ih =>
    subst hnext
    cases hread
    obtain ⟨m, hm, hlater⟩ := ih ((gives_map_widen _).1 h)
    obtain ⟨j, hj, hjp⟩ := exists_of_gives_map (gives_of_eq hp)
    exact ⟨j :: m, by rw [hm, ← hjp]; simp, .first hs hc hj hlater⟩
  case case9 state _ r read hread hfirst p hp hnil hclose hs _ _ ih =>
    subst hnext
    cases hread
    obtain ⟨m, hm, hlater⟩ := ih ((gives_map_widen _).1 h)
    obtain ⟨j, hj, hjp⟩ := exists_of_gives_map (gives_of_eq hp)
    refine ⟨j :: m, by rw [hm, ← hjp]; simp, ?_⟩
    rw [Bool.not_eq_true] at hfirst
    obtain ⟨c, u, ht⟩ := List.exists_cons_of_ne_nil hnil
    rw [hfirst]
    exact .next hs ht (fun e => hclose u (e ▸ ht)) hj hlater
  all_goals exact absurd h gives_error

section Elements

variable {next : σ → Option (Reader σ)}

theorem exists_of_gives_elements_first (hs : skipSpace s = c :: t) (hc : c ≠ ']')
    (h : Gives (elements next true state s) last rest) : ∃ read later s', next state = some read ∧
      Gives (read s) later s' ∧ Gives (elements next false later s') last rest := by
  rw [elements] at h
  split at h
  · rename_i hs'
    cases hs.symm.trans hs'
  · rename_i hs'
    cases hs.symm.trans hs'
    simp only [if_neg hc, if_true] at h
    split at h
    · exact absurd h gives_error
    · rename_i read hnext
      split at h
      · exact absurd h gives_error
      · rename_i p hp
        exact ⟨read, p.value, p.rest, hnext, gives_of_eq hp, (gives_map_widen _).1 h⟩

theorem exists_of_gives_elements_next (hs : skipSpace s = ',' :: t)
    (h : Gives (elements next false state s) last rest) : ∃ read later s', next state = some read ∧
      Gives (read t) later s' ∧ Gives (elements next false later s') last rest := by
  rw [elements] at h
  split at h
  · rename_i hs'
    cases hs.symm.trans hs'
  · rename_i hs'
    cases hs.symm.trans hs'
    have hcomma : ¬ ',' = ']' := by decide
    simp only [if_neg hcomma, Bool.false_eq_true, if_false, if_true] at h
    split at h
    · exact absurd h gives_error
    · rename_i read hnext
      split at h
      · exact absurd h gives_error
      · exact absurd h gives_error
      · split at h
        · exact absurd h gives_error
        · rename_i p hp
          exact ⟨read, p.value, p.rest, hnext, gives_of_eq hp, (gives_map_widen _).1 h⟩

/-- What a reader makes of elements is what its steps make of their values, one after the other. The
states keep the invariant `I`. -/
theorem gives_elements_iff {I : σ → Prop} {l : List Json} (h : Elements d first s l r)
    {step : σ → Json → Option σ}
    (hstep : ∀ state read, I state → next state = some read → Decodes d read (step state))
    (hnone : ∀ state j, next state = none → step state j = none)
    (hI : ∀ state j later, I state → step state j = some later → I later) (hstate : I state) :
    Gives (elements next first state s) last rest ↔ l.foldlM step state = some last ∧ rest = r := by
  induction h generalizing state with
  | done hs =>
      constructor
      · intro h
        obtain ⟨rfl, rfl⟩ := h.unique (gives_elements_end hs)
        exact ⟨rfl, rfl⟩
      · rintro ⟨h, rfl⟩
        cases h
        exact gives_elements_end hs
  | @first s t s' r c j l hs hc hvalue hlater ih =>
      rw [List.foldlM_cons]
      constructor
      · intro h
        obtain ⟨read, later, s'', hnext, hread, hrest⟩ := exists_of_gives_elements_first hs hc h
        obtain ⟨hone, rfl⟩ := (hstep state read hstate hnext hvalue).1 hread
        rw [hone]
        exact (ih (hI state j later hstate hone)).1 hrest
      · rintro ⟨h, hr⟩
        obtain ⟨later, hone, hfold⟩ := Option.bind_eq_some_iff.1 h
        cases hnext : next state with
        | none => cases (hnone state j hnext).symm.trans hone
        | some read =>
            exact gives_elements_first hs hc hnext
              ((hstep state read hstate hnext hvalue).2 ⟨hone, rfl⟩)
              ((ih (hI state j later hstate hone)).2 ⟨hfold, hr⟩)
  | @next s t u s' r c j l hs ht hc hvalue hlater ih =>
      rw [List.foldlM_cons]
      constructor
      · intro h
        obtain ⟨read, later, s'', hnext, hread, hrest⟩ := exists_of_gives_elements_next hs h
        obtain ⟨hone, rfl⟩ := (hstep state read hstate hnext hvalue).1 hread
        rw [hone]
        exact (ih (hI state j later hstate hone)).1 hrest
      · rintro ⟨h, hr⟩
        obtain ⟨later, hone, hfold⟩ := Option.bind_eq_some_iff.1 h
        cases hnext : next state with
        | none => cases (hnone state j hnext).symm.trans hone
        | some read =>
            exact gives_elements_next hs ht hc hnext
              ((hstep state read hstate hnext hvalue).2 ⟨hone, rfl⟩)
              ((ih (hI state j later hstate hone)).2 ⟨hfold, hr⟩)

end Elements

/-! ### Members -/

theorem eq_quote_of_keyStart (h : keyStart true c t = .ok u) : c = '"' ∧ u = t := by
  rw [keyStart, if_pos rfl] at h
  split at h
  · cases h
    exact ⟨‹_›, rfl⟩
  · cases h

theorem eq_comma_of_keyStart (h : keyStart false c t = .ok u) : c = ',' ∧ skipSpace t = '"' :: u := by
  rw [keyStart, if_neg Bool.false_ne_true] at h
  split at h
  · refine ⟨‹_›, ?_⟩
    split at h
    · cases h
    · cases h
      assumption
    · cases h
    · cases h
  · cases h

/-- Members with the keys and values `l` up to the end of an object. -/
inductive Members (d : Nat) : Bool → List Char → List (String × Json) → List Char → Prop
  | done {first : Bool} {s r : List Char} (hs : skipSpace s = '\x7d' :: r) : Members d first s [] r
  | next {first : Bool} {s t u v w s' r key : List Char} {c : Char} {j : Json}
      {l : List (String × Json)} (hs : skipSpace s = c :: t) (hc : c ≠ '\x7d')
      (hstart : keyStart first c t = .ok u) (hkey : stringFrom u = .ok (key, v))
      (hcolon : skipSpace v = ':' :: w) (hvalue : Gives (Reader.value d w) j s')
      (hlater : Members d false s' l r) : Members d first s ((String.ofList key, j) :: l) r

/-- The entries of an object are its members. -/
theorem members_of_gives {acc l : List (String × Json)} (h : Gives (members
    (fun l key => .ok ((Reader.value d).map fun a => (key, a) :: l)) first acc s) l r) :
    ∃ m, l = m.reverse ++ acc ∧ Members d first s m r := by
  generalize hmember : (fun l key => Except.ok ((Reader.value d).map fun a => (key, a) :: l)) = member
    at h
  fun_induction Json.members member first acc s
  case case2 hs _ =>
    obtain ⟨_, h⟩ := h
    cases h
    exact ⟨[], rfl, .done hs⟩
  case case8 hs _ hc u hstart key v hkey read hread w hcolon p hp _ ih =>
    subst hmember
    cases hread
    obtain ⟨m, hm, hlater⟩ := ih ((gives_map_widen _).1 h)
    obtain ⟨j, hj, hjp⟩ := exists_of_gives_map (gives_of_eq hp)
    exact ⟨(String.ofList key, j) :: m, by rw [hm, ← hjp]; simp,
      .next hs hc hstart hkey hcolon hj hlater⟩
  all_goals exact absurd h gives_error

section Members

variable {member : σ → String → Except Error (Reader σ)} {key : List Char}

theorem exists_of_gives_members_next (hs : skipSpace s = c :: t) (hc : c ≠ '\x7d')
    (hstart : keyStart first c t = .ok u) (hkey : stringFrom u = .ok (key, v))
    {w : List Char} (hcolon : skipSpace v = ':' :: w)
    (h : Gives (members member first state s) last rest) : ∃ read later s',
      member state (String.ofList key) = .ok read ∧ Gives (read w) later s' ∧
      Gives (members member false later s') last rest := by
  rw [members] at h
  split at h
  · rename_i hs'
    cases hs.symm.trans hs'
  · rename_i hs'
    cases hs.symm.trans hs'
    simp only [if_neg hc] at h
    split at h
    · exact absurd h gives_error
    rename_i hstart'
    cases hstart.symm.trans hstart'
    split at h
    · exact absurd h gives_error
    rename_i hkey'
    cases hkey.symm.trans hkey'
    split at h
    · exact absurd h gives_error
    rename_i read hmember
    split at h
    · exact absurd h gives_error
    · rename_i hcolon'
      cases hcolon.symm.trans hcolon'
      split at h
      · exact absurd h gives_error
      · rename_i p hp
        exact ⟨read, p.value, p.rest, hmember, gives_of_eq hp, (gives_map_widen _).1 h⟩
    · exact absurd h gives_error

/-- What a reader makes of members is what its steps make of their values, one after the other. -/
theorem gives_members_iff {l : List (String × Json)} (h : Members d first s l r)
    {step : σ → String × Json → Option σ}
    (hstep : ∀ state key read, member state key = .ok read →
      Decodes d read fun j => step state (key, j))
    (hnone : ∀ state key j e, member state key = .error e → step state (key, j) = none) :
    Gives (members member first state s) last rest ↔ l.foldlM step state = some last ∧ rest = r := by
  induction h generalizing state with
  | done hs =>
      constructor
      · intro h
        obtain ⟨rfl, rfl⟩ := h.unique (gives_members_end hs)
        exact ⟨rfl, rfl⟩
      · rintro ⟨h, rfl⟩
        cases h
        exact gives_members_end hs
  | @next first s t u v w s' r key c j l hs hc hstart hkey hcolon hvalue hlater ih =>
      rw [List.foldlM_cons]
      constructor
      · intro h
        obtain ⟨read, later, s'', hmember, hread, hrest⟩ :=
          exists_of_gives_members_next hs hc hstart hkey hcolon h
        obtain ⟨hone, rfl⟩ := (hstep state _ read hmember hvalue).1 hread
        change step state (String.ofList key, j) = some later at hone
        rw [hone]
        exact ih.1 hrest
      · rintro ⟨h, hr⟩
        obtain ⟨later, hone, hfold⟩ := Option.bind_eq_some_iff.1 h
        cases hmember : member state (String.ofList key) with
        | error e => cases (hnone state _ j e hmember).symm.trans hone
        | ok read =>
            exact gives_members_next hs hc hstart hkey hmember hcolon
              ((hstep state _ read hmember hvalue).2 ⟨hone, rfl⟩) (ih.2 ⟨hfold, hr⟩)

end Members

/-! ### Values -/

/-- A number and the text behind it. -/
inductive NumberAt (s : List Char) : Json → List Char → Prop
  | negative {r rest : List Char} {j : Json} (hs : skipSpace s = '-' :: r)
      (h : numeral true r = .ok (j, rest)) : NumberAt s j rest
  | unsigned {c : Char} {r rest : List Char} {j : Json} (hs : skipSpace s = c :: r) (hc : c.isDigit)
      (h : numeral false (c :: r) = .ok (j, rest)) : NumberAt s j rest

/-- A value and the text behind it. -/
inductive ValueAt (d : Nat) (s : List Char) : Json → List Char → Prop
  | array {r rest : List Char} {e : Nat} {l : List Json} (hs : skipSpace s = '[' :: r) (hd : d = e + 1)
      (h : Elements e true r l rest) : ValueAt d s (.array l) rest
  | object {r rest : List Char} {e : Nat} {l : List (String × Json)} (hs : skipSpace s = '\x7b' :: r)
      (hd : d = e + 1) (h : Members e true r l rest) : ValueAt d s (.object l) rest
  | string {r cs rest : List Char} (hs : skipSpace s = '"' :: r) (h : stringFrom r = .ok (cs, rest)) :
      ValueAt d s (.string (String.ofList cs)) rest
  | null {r rest : List Char} (hs : skipSpace s = 'n' :: r) (h : word "ull".toList r = .ok rest) :
      ValueAt d s .null rest
  | true {r rest : List Char} (hs : skipSpace s = 't' :: r) (h : word "rue".toList r = .ok rest) :
      ValueAt d s (.bool true) rest
  | false {r rest : List Char} (hs : skipSpace s = 'f' :: r) (h : word "alse".toList r = .ok rest) :
      ValueAt d s (.bool false) rest
  | int {n : Int} {rest : List Char} (h : NumberAt s (.int n) rest) : ValueAt d s (.int n) rest
  | real {x : Binary64} {rest : List Char} (h : NumberAt s (.real x) rest) : ValueAt d s (.real x) rest

theorem word_of_gives {w : String} (h : Gives (Reader.wordAs w a c s) b rest) :
    word w.toList s = .ok rest ∧ b = a := by
  obtain ⟨_, h⟩ := h
  unfold Reader.wordAs at h
  split at h
  · rename_i hw
    cases h
    exact ⟨hw, rfl⟩
  · cases h

theorem numeral_of_gives {negative : Bool} (h : Gives (Reader.numeral negative s) j rest) :
    numeral negative s = .ok (j, rest) := by
  obtain ⟨_, h⟩ := h
  unfold Reader.numeral at h
  split at h
  · rename_i hn
    cases h
    exact hn
  · cases h

theorem string_of_gives {x : String} (h : Gives (Reader.string s) x rest) :
    ∃ r cs, skipSpace s = '"' :: r ∧ stringFrom r = .ok (cs, rest) ∧ x = String.ofList cs := by
  obtain ⟨_, h⟩ := h
  rw [Reader.string] at h
  split at h
  · rename_i hs
    split at h
    · cases h
    · rename_i hcs
      cases h
      exact ⟨_, _, hs, hcs, rfl⟩
  · cases h

/-- A numeral begins with digits of which none leads in vain. -/
theorem exists_digits_of_numeral {negative : Bool} (h : numeral negative s = .ok (j, rest)) :
    ∃ digits t, someDigits s = .ok (digits, t) ∧ (digits.head? = some '0' → digits = ['0']) ∧
      numeralFrom negative (Gathered.whole ⟨0, 0⟩ digits) t = .ok (j, rest) := by
  obtain ⟨⟨digits, t⟩, hdigits, hfrom⟩ := ok_of_bind h
  dsimp only at hfrom
  split at hfrom
  · obtain ⟨_, hthrow, _⟩ := ok_of_bind hfrom
    cases hthrow
  · rename_i hzero
    refine ⟨digits, t, hdigits, fun hhead => ?_, hfrom⟩
    by_contra hne
    exact hzero ⟨hhead, hne⟩

theorem NumberAt.real_or_int (h : NumberAt s j rest) :
    (∃ x, j = .real x) ∨ ∃ n, j = .int n ∧ fitsWidth 63 64 n := by
  cases h with
  | negative hs hn | unsigned hs hc hn => exact numeral_cases hn

theorem NumberAt.valueAt (h : NumberAt s j rest) : ValueAt d s j rest := by
  rcases h.real_or_int with ⟨x, rfl⟩ | ⟨n, rfl, -⟩
  · exact .real h
  · exact .int h

theorem valueAt_of_gives (h : Gives (Reader.value d s) j rest) : ValueAt d s j rest := by
  have hvalue := gives_value_iff.1 h
  split at hvalue
  · exact hvalue.elim
  · rename_i hs
    obtain ⟨hw, rfl⟩ := word_of_gives hvalue
    exact .null hs hw
  · rename_i hs
    obtain ⟨hw, rfl⟩ := word_of_gives hvalue
    exact .true hs hw
  · rename_i hs
    obtain ⟨hw, rfl⟩ := word_of_gives hvalue
    exact .false hs hw
  · rename_i hs
    obtain ⟨x, hx, rfl⟩ := exists_of_gives_map hvalue
    obtain ⟨r, cs, hr, hcs, rfl⟩ := string_of_gives hx
    cases (skipSpace_cons (by decide) _).symm.trans hr
    exact .string hs hcs
  · rename_i hs
    exact (NumberAt.negative hs (numeral_of_gives hvalue)).valueAt
  · rename_i hs
    obtain ⟨e, hd, hitems⟩ := hvalue
    obtain ⟨l, hl, rfl⟩ := exists_of_gives_map hitems
    obtain ⟨acc, hacc, rfl⟩ := exists_of_gives_map hl
    obtain ⟨m, rfl, hm⟩ := elements_of_gives hacc
    exact .array hs hd (by simpa using hm)
  · rename_i hs
    obtain ⟨e, hd, hentries⟩ := hvalue
    obtain ⟨l, hl, rfl⟩ := exists_of_gives_map hentries
    obtain ⟨acc, hacc, rfl⟩ := exists_of_gives_map hl
    obtain ⟨m, rfl, hm⟩ := members_of_gives hacc
    exact .object hs hd (by simpa using hm)
  · rename_i hs
    exact (NumberAt.unsigned hs hvalue.1 (numeral_of_gives hvalue.2)).valueAt

end UtilityCss.Json
