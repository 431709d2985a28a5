import UtilityCss.Json.Schema

/-!
# Results of readers

A result is a value and what is left of the text; that the text got shorter goes with it and does not
matter (`Gives`). The readers of JSON are described by the results that they give: the elements of an
array and the members of an object one by one, and a value of any kind by what its text begins with
(`gives_value_iff`).
-/

namespace UtilityCss.Json

variable {α β σ : Type} {s t r rest rest' : List Char} {a b : α} {j : Json} {d : Nat}

/-- A result is the value `a`, with `rest` left of the text. -/
def Gives (x : Except Error (Read s α)) (a : α) (rest : List Char) : Prop :=
  ∃ h, x = .ok ⟨a, rest, h⟩

theorem gives_error {e : Error} : ¬ Gives (.error e : Except Error (Read s α)) a rest := nofun

theorem gives_map_widen {x : Except Error (Read t α)} (hle : t.length ≤ s.length) :
    Gives (x.map (·.widen hle)) a rest ↔ Gives x a rest := by
  cases x with
  | error e => exact ⟨nofun, nofun⟩
  | ok p =>
      constructor
      · rintro ⟨h, hp⟩
        cases hp
        exact ⟨p.shorter, rfl⟩
      · rintro ⟨h, hp⟩
        cases hp
        exact ⟨_, rfl⟩

theorem gives_afterSpace {hs : skipSpace s = t} {x : Except Error (Read t α)} :
    Gives (Read.afterSpace hs x) a rest ↔ Gives x a rest :=
  gives_map_widen _

theorem gives_behind {c : Char} {x : Except Error (Read s α)} :
    Gives (Read.behind c x) a rest ↔ Gives x a rest :=
  gives_map_widen _

theorem Gives.bind {x : Except Error (Read s α)} {f : Read s α → Except Error (Read s β)} {b : β}
    (h : Gives x a rest) (hf : ∀ hlt, Gives (f ⟨a, rest, hlt⟩) b rest') : Gives (x >>= f) b rest' := by
  obtain ⟨hlt, rfl⟩ := h
  exact hf hlt

theorem Gives.map {x : Except Error (Read s α)} (f : α → β) (h : Gives x a rest) :
    Gives (x.map (·.map f)) (f a) rest := by
  obtain ⟨hlt, rfl⟩ := h
  exact ⟨hlt, rfl⟩

theorem gives_string (hs : skipSpace s = '"' :: r) {cs : List Char} (h : stringFrom r = .ok (cs, rest)) :
    Gives (Reader.string s) (String.ofList cs) rest := by
  rw [Reader.string]
  split
  · rename_i hs'
    cases hs.symm.trans hs'
    split
    · rename_i h'
      cases h.symm.trans h'
    · rename_i h'
      cases h.symm.trans h'
      exact ⟨_, rfl⟩
  · rename_i hne
    exact (hne r hs).elim

/-! ### Elements and members -/

section Elements

variable {next : σ → Option (Reader σ)} {read : Reader σ} {first : Bool} {state later last : σ} {c : Char}

theorem gives_elements_end (hs : skipSpace s = ']' :: rest) :
    Gives (elements next first state s) state rest := by
  rw [elements]
  split
  · rename_i hs'
    cases hs.symm.trans hs'
  · rename_i hs'
    cases hs.symm.trans hs'
    exact ⟨_, if_pos rfl⟩

theorem gives_elements_first (hs : skipSpace s = c :: r) (hc : c ≠ ']') (hnext : next state = some read)
    (hread : Gives (read s) later rest) (hlater : Gives (elements next false later rest) last rest') :
    Gives (elements next true state s) last rest' := by
  obtain ⟨hlt, hread⟩ := hread
  obtain ⟨hlt', hlater⟩ := hlater
  rw [elements]
  split
  · rename_i hs'
    cases hs.symm.trans hs'
  · rename_i hs'
    cases hs.symm.trans hs'
    simp only [if_neg hc, hnext, if_true, hread, hlater]
    exact ⟨_, rfl⟩

theorem gives_elements_next (hs : skipSpace s = ',' :: r) (hr : skipSpace r = c :: t) (hc : c ≠ ']')
    (hnext : next state = some read) (hread : Gives (read r) later rest)
    (hlater : Gives (elements next false later rest) last rest') :
    Gives (elements next false state s) last rest' := by
  obtain ⟨hlt, hread⟩ := hread
  obtain ⟨hlt', hlater⟩ := hlater
  rw [elements]
  split
  · rename_i hs'
    cases hs.symm.trans hs'
  · rename_i hs'
    cases hs.symm.trans hs'
    have hcomma : ¬ ',' = ']' := by decide
    simp only [if_neg hcomma, hnext, Bool.false_eq_true, if_false, if_true, hr, hread, hlater]
    split
    · rename_i hnil
      cases hnil
    · rename_i hcloser
      cases hcloser
      exact absurd rfl hc
    · exact ⟨_, rfl⟩

end Elements

section Members

variable {member : σ → String → Except Error (Reader σ)} {read : Reader σ} {first : Bool}
  {state later last : σ} {c : Char} {u v key : List Char}

theorem gives_members_end (hs : skipSpace s = '\x7d' :: rest) :
    Gives (members member first state s) state rest := by
  rw [members]
  split
  · rename_i hs'
    cases hs.symm.trans hs'
  · rename_i hs'
    cases hs.symm.trans hs'
    exact ⟨_, if_pos rfl⟩

theorem gives_members_next (hs : skipSpace s = c :: r) (hc : c ≠ '\x7d')
    (hstart : keyStart first c r = .ok t) (hkey : stringFrom t = .ok (key, u))
    (hmember : member state (String.ofList key) = .ok read) (hcolon : skipSpace u = ':' :: v)
    (hread : Gives (read v) later rest) (hlater : Gives (members member false later rest) last rest') :
    Gives (members member first state s) last rest' := by
  obtain ⟨hlt, hread⟩ := hread
  obtain ⟨hlt', hlater⟩ := hlater
  rw [members]
  split
  · rename_i hs'
    cases hs.symm.trans hs'
  · rename_i hs'
    cases hs.symm.trans hs'
    simp only [if_neg hc]
    split
    · rename_i hstart'
      cases hstart.symm.trans hstart'
    · rename_i hstart'
      cases hstart.symm.trans hstart'
      split
      · rename_i hkey'
        cases hkey.symm.trans hkey'
      · rename_i hkey'
        cases hkey.symm.trans hkey'
        simp only [hmember]
        split
        · rename_i hcolon'
          cases hcolon.symm.trans hcolon'
        · rename_i hcolon'
          cases hcolon.symm.trans hcolon'
          simp only [hread, hlater]
          exact ⟨_, rfl⟩
        · rename_i hne
          exact (hne v hcolon).elim

end Members

/-! ### Values of any kind -/

theorem gives_wordAs {w : String} {c : Char} (h : word w.toList s = .ok rest) :
    Gives (Reader.wordAs w a c s) a rest := by
  rw [Reader.wordAs]
  split
  · rename_i h'
    cases h.symm.trans h'
    exact ⟨_, rfl⟩
  · rename_i h'
    cases h.symm.trans h'

theorem gives_numeral {negative : Bool} (h : numeral negative s = .ok (j, rest)) :
    Gives (Reader.numeral negative s) j rest := by
  rw [Reader.numeral]
  split
  · rename_i h'
    cases h.symm.trans h'
    exact ⟨_, rfl⟩
  · rename_i h'
    cases h.symm.trans h'

/-- A value of any kind is read by what its text begins with. -/
theorem gives_value_iff {j : Json} : Gives (Reader.value d s) j rest ↔
    match skipSpace s with
    | []          => False
    | 'n' :: r    => Gives (Reader.wordAs "ull" .null 'n' r) j rest
    | 't' :: r    => Gives (Reader.wordAs "rue" (.bool true) 't' r) j rest
    | 'f' :: r    => Gives (Reader.wordAs "alse" (.bool false) 'f' r) j rest
    | '"' :: r    => Gives ((Reader.string ('"' :: r)).map (·.map .string)) j rest
    | '-' :: r    => Gives (Reader.numeral true r) j rest
    | '[' :: r    => ∃ e, d = e + 1 ∧ Gives ((Reader.items (.value e) r).map (·.map .array)) j rest
    | '\x7b' :: r =>
      ∃ e, d = e + 1 ∧ Gives ((Reader.entries (.value e) r).map (·.map .object)) j rest
    | c :: r      => c.isDigit ∧ Gives (Reader.numeral false (c :: r)) j rest := by
  rw [Reader.value]
  split
  case h_7 hs | h_8 hs =>
    cases d with
    | zero =>
        simp only [gives_error, false_iff]
        rw [hs]
        rintro ⟨e, he, -⟩
        cases he
    | succ d =>
        simp only [gives_afterSpace, gives_behind]
        rw [hs]
        exact ⟨fun h => ⟨d, rfl, h⟩, by rintro ⟨e, he, h⟩; cases he; exact h⟩
  case h_9 c r _ _ _ _ _ _ _ hs =>
    have hdigit : Gives (if c.isDigit then Read.afterSpace hs (Reader.numeral false (c :: r))
        else .error .expectedValue) j rest ↔
          c.isDigit ∧ Gives (Reader.numeral false (c :: r)) j rest := by
      split <;> simp_all [gives_error, gives_afterSpace]
    rw [hdigit, hs]
    split
    case h_9 h => cases h; rfl
    all_goals rename_i h; cases h
    all_goals contradiction
  all_goals
    rename_i hs
    simp only [gives_error, gives_afterSpace, gives_behind]
    rw [hs]
  all_goals exact Iff.rfl

theorem gives_value_of_isDigit {c : Char} {j : Json} (hs : skipSpace s = c :: r) (hc : c.isDigit) :
    Gives (Reader.value d s) j rest ↔ Gives (Reader.numeral false (c :: r)) j rest := by
  rw [gives_value_iff, hs]
  split
  case h_9 h =>
    cases h
    exact and_iff_right hc
  all_goals rename_i h; cases h
  all_goals exact absurd hc (by decide)

end UtilityCss.Json
