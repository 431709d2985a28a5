import UtilityCss.Json.Reader

/-!
# Readers for what is asked for

Readers of any value, of lists and maps of one kind of value, and of records. A record is written as
an object, whose members may come in any order and may hold others that are passed over, or as an
array of its fields in the order of their declaration, where trailing fields may be left out.
-/

namespace UtilityCss.Json

variable {α β σ : Type}

/-- What a reader found from the text `t` on, which is all of `s` but blanks. -/
def Read.afterSpace {s t : List Char} (h : skipSpace s = t) (r : Except Error (Read t α)) :
    Except Error (Read s α) :=
  r.map (·.widen (h ▸ length_skipSpace_le s))

/-- What a reader found behind the character `c`. -/
def Read.behind {t : List Char} (c : Char) (r : Except Error (Read t α)) :
    Except Error (Read (c :: t) α) :=
  r.map (·.widen (Nat.le_succ _))

/-- Reads the rest of a word. -/
def Reader.wordAs (w : String) (a : α) (c : Char) (s : List Char) :
    Except Error (Read (c :: s) α) :=
  match h : word w.toList s with
  | .ok r    => .ok ⟨a, r, Nat.lt_succ_of_le (length_le_of_word h)⟩
  | .error e => .error e

/-- Reads an unsigned numeral. -/
def Reader.numeral (negative : Bool) : Reader Json := fun s =>
  match h : Json.numeral negative s with
  | .ok (v, r) => .ok ⟨v, r, length_lt_of_numeral h⟩
  | .error e   => .error e

/-- Reads items up to the end of an array. -/
def Reader.items (read : Reader α) : Reader (List α) := fun s =>
  (elements (fun l => some (read.map (· :: l))) true [] s).map (·.map List.reverse)

/-- Reads members up to the end of an object. -/
def Reader.entries (read : Reader α) : Reader (List (String × α)) := fun s =>
  (members (fun l key => .ok (read.map fun a => (key, a) :: l)) true [] s).map (·.map List.reverse)

/-- Reads any value. -/
def Reader.value (depth : Nat) : Reader Json := fun s =>
  match h : skipSpace s with
  | []       => .error .valueEnds
  | 'n' :: r => Read.afterSpace h (wordAs "ull" .null 'n' r)
  | 't' :: r => Read.afterSpace h (wordAs "rue" (.bool true) 't' r)
  | 'f' :: r => Read.afterSpace h (wordAs "alse" (.bool false) 'f' r)
  | '"' :: r => Read.afterSpace h ((string ('"' :: r)).map (·.map .string))
  | '-' :: r => Read.afterSpace h (Read.behind '-' (numeral true r))
  | '[' :: r =>
    match depth with
    | 0     => .error .tooDeep
    | d + 1 => Read.afterSpace h (Read.behind '[' ((items (value d) r).map (·.map .array)))
  | '\x7b' :: r =>
    match depth with
    | 0     => .error .tooDeep
    | d + 1 =>
      Read.afterSpace h (Read.behind '\x7b' ((entries (value d) r).map (·.map .object)))
  | c :: r   =>
    if c.isDigit then Read.afterSpace h (numeral false (c :: r)) else .error .expectedValue

/-- Reads an array. -/
def Reader.array (item : Nat → Reader α) (depth : Nat) : Reader (List α) := fun s =>
  match h : skipSpace s with
  | '[' :: r => Read.afterSpace h (Read.behind '[' (deeper depth (fun d => items (item d)) r))
  | t        => .error (unexpected .sequence t)

/-- Reads an object as a map. -/
def Reader.object (value : Nat → Reader α) (depth : Nat) : Reader (OrderedMap String α) := fun s =>
  match h : skipSpace s with
  | '\x7b' :: r =>
    Read.afterSpace h (Read.behind '\x7b'
      ((deeper depth (fun d => entries (value d)) r).map (·.map OrderedMap.ofList)))
  | t => .error (unexpected .map t)

/-! ### Values of several forms -/

/-- Reads any value and keeps what `form?` makes of it; `type` names the forms it may have. -/
def Reader.form (type : String) (form? : Json → Option α) (depth : Nat) : Reader α := fun s =>
  match value depth s with
  | .error e => .error e
  | .ok r    =>
    match form? r.value with
    | some a => .ok (r.map fun _ => a)
    | none   => .error (.noForm type)

/-- Reads the name of one of several variants, alone or as the only key of an object with `null`. -/
def Reader.variant (variants : List (String × α)) (depth : Nat) : Reader α := fun s =>
  let named (name : String) : Except Error α :=
    match variants.find? (·.1 = name) with
    | some v => .ok v.2
    | none   => .error (.unknownVariant name (variants.map (·.1)))
  match h : skipSpace s with
  | [] => .error .valueEnds
  | '"' :: r =>
    match string ('"' :: r) with
    | .error e => .error e
    | .ok p    =>
      match named p.value with
      | .error e => .error e
      | .ok a    => Read.afterSpace h (.ok (p.map fun _ => a))
  | '\x7b' :: r => Read.afterSpace h (Read.behind '\x7b' (deeper depth (fun _ => single named) r))
  | _ => .error .expectedValue
where
  /-- Reads the only member of an object, whose value is `null`, up to the end of the object. -/
  single (named : String → Except Error α) : Reader α := fun s =>
    match _h : skipSpace s with
    | '"' :: t =>
      match string ('"' :: t) with
      | .error e => .error e
      | .ok p    =>
        match named p.value with
        | .error e => .error e
        | .ok a    =>
          match hu : skipSpace p.rest with
          | []       => .error .objectEnds
          | ':' :: v =>
            match unit v with
            | .error e => .error e
            | .ok q    =>
              match hw : skipSpace q.rest with
              | []          => .error .objectEnds
              | '\x7d' :: r => .ok ⟨a, r, by
                  have h₁ := length_skipSpace_le s
                  have h₂ := p.shorter
                  have h₃ := length_skipSpace_le p.rest
                  have h₄ := q.shorter
                  have h₅ := length_skipSpace_le q.rest
                  simp only [_h, hu, hw, List.length_cons] at h₁ h₂ h₃ h₅
                  omega⟩
              | _           => .error .expectedValue
          | _ => .error .expectedColon
    | t => .error (unexpected .variant t)

/-! ### Records -/

/-- A field of a record that is read into a draft. -/
structure Field (σ : Type) where
  name     : String
  /-- The field has no default. -/
  required : Bool
  isSet    : σ → Bool
  read     : Nat → Reader (σ → σ)

/-- Reads the value of the member `key` of a record. -/
def Field.member (fields : List (Field σ)) (depth : Nat) (draft : σ) (key : String) :
    Except Error (Reader σ) :=
  match fields.find? (·.name = key) with
  | none   => .ok (Reader.ignored.map fun _ => draft)
  | some f =>
    if f.isSet draft then .error (.duplicateField key)
    else .ok ((f.read depth).map fun set => set draft)

/-- Reads the next of the fields that are left. -/
def Field.next (depth : Nat) (state : List (Field σ) × σ) : Option (Reader (List (Field σ) × σ)) :=
  match state.1 with
  | []        => none
  | f :: rest => some ((f.read depth).map fun set => (rest, set state.2))

/-- Reads a record. Fields that are left out keep what the draft `empty` has. -/
def Reader.record (name : String) (fields : List (Field σ)) (empty : σ) (depth : Nat) : Reader σ :=
  fun s =>
    match h : skipSpace s with
    | '[' :: r =>
      Read.afterSpace h (Read.behind '['
        (deeper depth (fun d s => do
          let p ← elements (Field.next d) true (fields, empty) s
          if p.value.1.any (·.required) then
            throw (.tooShort (fields.length - p.value.1.length) name fields.length)
          return p.map (·.2)) r))
    | '\x7b' :: r =>
      Read.afterSpace h (Read.behind '\x7b'
        (deeper depth (fun d s => do
          let p ← members (Field.member fields d) true empty s
          match fields.find? fun f => f.required && !f.isSet p.value with
          | some f => throw (.missingField f.name)
          | none   => return p) r))
    | t => .error (unexpected (.record name) t)

/-- Reads a text that holds one value and nothing else. -/
def Reader.all (read : Nat → Reader α) (s : String) : Except Error α :=
  match read maxDepth s.toList with
  | .error e => .error e
  | .ok p    => if skipSpace p.rest = [] then .ok p.value else .error .trailingCharacters

end UtilityCss.Json
