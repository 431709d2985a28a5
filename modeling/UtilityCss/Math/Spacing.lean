import UtilityCss.Text.Blank
import UtilityCss.Value.Length

/-!
# Spacing of math functions

A value in a class name cannot hold a space, so `_` stands for one. Inside a call of a math function
every `_` becomes a space, every operator gets a space on either side, and each run of blanks becomes
one space. A call begins at the start of the value or after a character that is no ASCII letter or
digit; after a spaced call that character is one of the text that follows it. What stands outside
calls is kept, and so is everything from a call on whose parenthesis is not closed.

`normalize` spaces every call; `normalizeLeading` spaces a call only where the value begins.
-/

namespace UtilityCss.Math
open Text Value

/-- Blanks around an operator, and a space for `_`. -/
def pad (c : Char) : List Char :=
  if c = '_' then [' ']
  else if c = '+' || c = '-' || c = '*' || c = '/' then [' ', c, ' ']
  else [c]

/-- The arguments of a call with their spacing in order. -/
def spaceArguments (s : List Char) : List Char :=
  [' '].intercalate (wordsFrom [] (s.flatMap pad))

/-- What stands before the `)` that closes `depth + 1` open parentheses, and what follows it. -/
def closing? (depth : Nat) : List Char → Option (List Char × List Char)
  | []       => none
  | '(' :: s => (closing? (depth + 1) s).map fun r => ('(' :: r.1, r.2)
  | ')' :: s =>
    match depth with
    | 0     => some ([], s)
    | d + 1 => (closing? d s).map fun r => (')' :: r.1, r.2)
  | c :: s   => (closing? depth s).map fun r => (c :: r.1, r.2)

/-- The name of a math function with its parenthesis at the head of a text, and what follows. -/
def opening? (s : List Char) : Option (List Char × List Char) :=
  mathFunctions.findSome? fun name =>
    let head := name.toList ++ ['(']
    (dropPrefix? head s).map fun r => (head, r)

theorem append_of_opening? {s h r : List Char} (e : opening? s = some (h, r)) : s = h ++ r := by
  obtain ⟨name, -, e⟩ := List.exists_of_findSome?_eq_some e
  obtain ⟨t, ht, e⟩ := Option.map_eq_some_iff.1 e
  cases e
  exact dropPrefix?_eq_some_iff.1 ht

theorem append_of_closing? {d : Nat} {s a r : List Char} (e : closing? d s = some (a, r)) :
    s = a ++ ')' :: r := by
  fun_induction closing? d s generalizing a r with
  | case1 => simp at e
  | case2 d s ih =>
    obtain ⟨p, hp, e⟩ := Option.map_eq_some_iff.1 e
    cases e
    simpa using ih hp
  | case3 s =>
    cases e
    rfl
  | case4 s d ih =>
    obtain ⟨p, hp, e⟩ := Option.map_eq_some_iff.1 e
    cases e
    simpa using ih hp
  | case5 d c s _ _ ih =>
    obtain ⟨p, hp, e⟩ := Option.map_eq_some_iff.1 e
    cases e
    simpa using ih hp

/-- Spaces the calls of a text; `start` says whether one may begin at its head. -/
def normalizeFrom (start : Bool) : List Char → List Char
  | []     => []
  | c :: s =>
    match _ho : if start then opening? (c :: s) else none with
    | some (head, r) =>
      match _hc : closing? 0 r with
      | some (arguments, rest) =>
        head ++ spaceArguments arguments ++ ')' :: normalizeFrom false rest
      | none => c :: s
    | none => c :: normalizeFrom (!c.isAlphanum) s
termination_by s => s.length
decreasing_by
  · have ho : opening? (c :: s) = some (head, r) := by
      split at _ho
      · exact _ho
      · simp at _ho
    have h₁ := congrArg List.length (append_of_opening? ho)
    have h₂ := congrArg List.length (append_of_closing? _hc)
    simp only [List.length_append, List.length_cons] at h₁ h₂ ⊢
    omega
  · simp

/-- A value with every call of a math function spaced. -/
def normalize (value : String) : String :=
  String.ofList (normalizeFrom true value.toList)

/-- A value with the call at its head spaced, if there is one. -/
def normalizeLeading (value : String) : String :=
  match opening? value.toList with
  | some (head, r) =>
    match closing? 0 r with
    | some (arguments, rest) => String.ofList (head ++ spaceArguments arguments ++ ')' :: rest)
    | none                   => value
  | none => value

end UtilityCss.Math
