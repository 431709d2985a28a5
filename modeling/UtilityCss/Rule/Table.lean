import UtilityCss.OrderedMap
import UtilityCss.Rule.Generator
import UtilityCss.Text.Word

/-!
# Rules

A rule gives a key its domain of values and its declarations. Keys take a value, in brackets or after
a hyphen; keywords are classes of their own and stand in a table of their own, since `flex` is both.
A class names a rule in one of three ways, tried in this order: it is a keyword; it has the form
`key-[value]`; it has the form `key-value`, cut at the first hyphen that leaves a known key before it
and a value behind it.
-/

namespace UtilityCss
open Text Value

/-- What values a key takes, and what they become. -/
structure Rule where
  key       : String
  domain    : Domain
  generator : Generator
deriving DecidableEq, Repr

namespace Rule

def accepts (r : Rule) (value : String) : Bool := r.domain.accepts value

def declarations (r : Rule) (value : String) : String := r.generator.declarations value

/-- The suffixes of a spacing key and the sides they name, in order of output. -/
def spacingDirections : List (String × List String) :=
  [("", []), ("x", ["left", "right"]), ("y", ["top", "bottom"]), ("t", ["top"]),
   ("b", ["bottom"]), ("l", ["left"]), ("r", ["right"])]

def spacingProperties : List (String × String) := [("p", "padding"), ("m", "margin")]

def sizeProperties : List (String × String) :=
  [("w", "width"), ("h", "height"), ("max-w", "max-width"), ("min-w", "min-width"),
   ("max-h", "max-height"), ("min-h", "min-height")]

def insetProperties : List String := ["top", "left", "right", "bottom"]

def positionKeywords : List String := ["static", "relative", "absolute", "fixed", "sticky"]

def displayKeywords : List String :=
  ["block", "inline", "inline-block", "flex", "grid", "hidden", "inline-flex", "inline-grid"]

def spacingRules : List Rule :=
  spacingProperties.flatMap fun (key, property) =>
    spacingDirections.map fun (suffix, sides) =>
      ⟨key ++ suffix, .lengthOrMath, .spacing property sides⟩

def sizeRules : List Rule :=
  sizeProperties.map fun (key, property) => ⟨key, .lengthOrMath, .length property⟩

def insetRules : List Rule :=
  insetProperties.map fun property => ⟨property, .lengthOrMath, .length property⟩

def singleRules : List Rule :=
  [⟨"text",    .text,           .text⟩,
   ⟨"font",    .fontWeight,     .plain "font-weight"⟩,
   ⟨"lh",      .lineHeight,     .plain "line-height"⟩,
   ⟨"bg",      .background,     .background⟩,
   ⟨"d",       .display,        .plain "display"⟩,
   ⟨"float",   .float,          .plain "float"⟩,
   ⟨"justify", .justifyContent, .plain "justify-content"⟩,
   ⟨"items",   .alignItems,     .plain "align-items"⟩,
   ⟨"gap",     .lengthOrMath,   .leadingMath "gap"⟩,
   ⟨"border",  .border,         .border⟩,
   ⟨"radius",  .lengthOrMath,   .leadingMath "border-radius"⟩,
   ⟨"pos",     .position,       .plain "position"⟩,
   ⟨"opacity", .opacity,        .plain "opacity"⟩,
   ⟨"z",       .zIndex,         .plain "z-index"⟩,
   ⟨"flex",    .flex,           .flex⟩]

/-- The rules whose key takes a value. -/
def keyed : List Rule := spacingRules ++ sizeRules ++ insetRules ++ singleRules

/-- The rules that a bare class names. -/
def keywords : List Rule :=
  positionKeywords.map (fun k => ⟨k, .any, .plain "position"⟩) ++
    displayKeywords.map (fun k => ⟨k, .any, .plain "display"⟩)

/-- The rule of a key. -/
def ofKey? (key : String) : Option Rule := keyed.find? (·.key = key)

/-- The rule of a keyword. -/
def ofKeyword? (name : String) : Option Rule := keywords.find? (·.key = name)

theorem nodup_keys : (keyed.map (·.key)).Nodup := by decide

theorem nodup_keywords : (keywords.map (·.key)).Nodup := by decide

/-! ### Classes that name a rule -/

/-- The key and the value of a text `key-[value]`. The key holds no bracket, so the first one opens
the value; the value is on one line and may hold anything else. -/
def bracketForm? (s : List Char) : Option (List Char × List Char) :=
  match dropSuffix? ['-'] (s.takeWhile (· ≠ '[')),
      dropSuffix? [']'] ((s.dropWhile (· ≠ '[')).drop 1) with
  | some key, some value =>
    if key ≠ [] ∧ key.all isKeyChar ∧ value ≠ [] ∧ !value.contains '\n' then some (key, value)
    else none
  | _, _ => none

/-- The ways to cut a text at a hyphen with something behind it, from left to right. -/
def hyphenCuts (before : List Char) : List Char → List (List Char × List Char)
  | []     => []
  | c :: s =>
    let later := hyphenCuts (c :: before) s
    if c = '-' ∧ s ≠ [] then (before.reverse, s) :: later else later

theorem mem_hyphenCuts_cons {key value before s : List Char} {c : Char} :
    (key, value) ∈ hyphenCuts before (c :: s) ↔
      (c = '-' ∧ s ≠ [] ∧ key = before.reverse ∧ value = s) ∨
        (key, value) ∈ hyphenCuts (c :: before) s := by
  rw [hyphenCuts]
  split
  · rename_i h
    simp [h]
  · rename_i h
    exact (or_iff_right fun hcut => h ⟨hcut.1, hcut.2.1⟩).symm

/-- The cuts of a class: at a hyphen, with something behind it. -/
theorem mem_hyphenCuts {key value before s : List Char} : (key, value) ∈ hyphenCuts before s ↔
    value ≠ [] ∧ ∃ l, s = l ++ '-' :: value ∧ key = before.reverse ++ l := by
  induction s generalizing before with
  | nil => simp [hyphenCuts]
  | cons c s ih =>
      rw [mem_hyphenCuts_cons, ih]
      constructor
      · rintro (⟨rfl, hs, rfl, rfl⟩ | ⟨hv, l, rfl, rfl⟩)
        · exact ⟨hs, [], rfl, by simp⟩
        · exact ⟨hv, c :: l, rfl, by simp⟩
      · rintro ⟨hv, l, hs, rfl⟩
        cases l with
        | nil =>
            obtain ⟨rfl, rfl⟩ := List.cons.inj hs
            exact .inl ⟨rfl, hv, by simp, rfl⟩
        | cons d l =>
            obtain ⟨rfl, rfl⟩ := List.cons.inj hs
            exact .inr ⟨hv, l, rfl, by simp⟩

/-- The rule that a class names, and the value it gives. -/
def ofClass? (name : String) : Option (Rule × String) :=
  match ofKeyword? name with
  | some r => some (r, name)
  | none   =>
    match bracketForm? name.toList with
    | some (key, value) =>
      (ofKey? (String.ofList key)).map fun r => (r, String.ofList value)
    | none =>
      (hyphenCuts [] name.toList).findSome? fun (key, value) =>
        (ofKey? (String.ofList key)).map fun r => (r, String.ofList value)

end Rule

end UtilityCss
