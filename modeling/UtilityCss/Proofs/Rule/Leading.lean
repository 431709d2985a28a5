import UtilityCss.Proofs.Math.OneCall
import UtilityCss.Proofs.Rule.Declarations
import UtilityCss.Proofs.Value.Numeral
import Mathlib.Data.List.Nodup

/-!
# Values that every rule spaces alike

Some rules space every call of a value, and some the call at its head alone. Of a value that is a length
both leave every character, since a call needs a parenthesis (`normalizeFrom_of_not_mem`), and of one that
is one call both space the whole arguments (`normalizeFrom_call`). So a gap or a radius is written as a
size, an inset or a spacing of the same value is, up to the unit of a number.

The main statement is `Rule.leading_alike`.
-/

namespace UtilityCss
open Text Value

namespace Math

variable {s arguments : List Char} {name : String} {value : String}

theorem opening?_of_not_mem (h : '(' ∉ s) : opening? s = none := by
  rw [opening?_eq_none_iff]
  exact fun name _ hp => h (hp.subset List.mem_concat_self)

/-- Without a parenthesis there is no call. -/
theorem normalizeFrom_of_not_mem (h : '(' ∉ s) (start : Bool) : normalizeFrom start s = s := by
  induction s generalizing start with
  | nil => exact normalizeFrom_nil start
  | cons c s ih =>
      have hs : '(' ∉ s := fun hm => h (List.mem_cons_of_mem c hm)
      cases start with
      | false => rw [normalizeFrom_false, ih hs]
      | true => rw [normalizeFrom_of_none (opening?_of_not_mem h), ih hs]

theorem normalize_of_not_mem (h : '(' ∉ value.toList) : normalize value = value := by
  rw [normalize, normalizeFrom_of_not_mem h, String.ofList_toList]

/-- The call at the head is the whole of a value that is one call, and a length has none. -/
theorem normalizeLeading_eq_normalize (h : isLength value.toList ∨ IsOneCall value.toList) :
    normalizeLeading value = normalize value := by
  rcases h with h | ⟨name, hname, arguments, htext, harguments⟩
  · have hnot := not_mem_of_isLength h
    rw [normalizeLeading, opening?_of_not_mem hnot, normalize_of_not_mem hnot]
  · have ho : opening? value.toList = some (name.toList ++ ['('], arguments ++ [')']) := by
      rw [htext, opening?_name hname]
    rw [normalizeLeading_of_call ho (closing?_eq_some_iff.2 ⟨harguments, rfl⟩), normalize, htext,
      normalizeFrom_call hname harguments]
    simp

end Math

namespace Rule

/-- The keys whose rule spaces a call at the head of a value alone, and the properties that they set. -/
def leadingProperties : List (String × String) := [("gap", "gap"), ("radius", "border-radius")]

/-- The keys whose rule sets one property and spaces every call. -/
def lengthProperties : List (String × String) := sizeProperties ++ insetProperties.map fun p => (p, p)

/-- The rule of a key is the one in the table with that key. -/
theorem ofKey?_of_mem {r : Rule} (h : r ∈ keyed) : ofKey? r.key = some r := by
  have hfound : (ofKey? r.key).isSome := List.find?_isSome.2 ⟨r, h, by simp⟩
  obtain ⟨r', hr'⟩ := Option.isSome_iff_exists.1 hfound
  have hkey : r'.key = r.key := by simpa using List.find?_some hr'
  obtain rfl := List.inj_on_of_nodup_map nodup_keys (List.mem_of_find?_eq_some hr') h hkey
  exact hr'

variable {p : String × String} {d : String × List String}

theorem ofKey?_leading (hp : p ∈ leadingProperties) :
    ofKey? p.1 = some ⟨p.1, .lengthOrMath, .leadingMath p.2⟩ := by
  have hall : ∀ p ∈ leadingProperties, ⟨p.1, .lengthOrMath, .leadingMath p.2⟩ ∈ singleRules := by decide
  exact ofKey?_of_mem (List.mem_append_right _ (hall p hp))

theorem ofKey?_length (hp : p ∈ lengthProperties) :
    ofKey? p.1 = some ⟨p.1, .lengthOrMath, .length p.2⟩ := by
  have hrule : ⟨p.1, .lengthOrMath, .length p.2⟩ ∈ spacingRules ++ sizeRules ++ insetRules := by
    rcases List.mem_append.1 hp with hp | hp
    · exact List.mem_append_left _ (List.mem_append_right _ (List.mem_map_of_mem hp))
    · obtain ⟨property, hproperty, rfl⟩ := List.mem_map.1 hp
      exact List.mem_append_right _ (List.mem_map_of_mem hproperty)
  exact ofKey?_of_mem (List.mem_append_left _ hrule)

theorem ofKey?_spacing (hp : p ∈ spacingProperties) (hd : d ∈ spacingDirections) :
    ofKey? (p.1 ++ d.1) = some ⟨p.1 ++ d.1, .lengthOrMath, .spacing p.2 d.2⟩ := by
  have hrule : ⟨p.1 ++ d.1, .lengthOrMath, .spacing p.2 d.2⟩ ∈ spacingRules :=
    List.mem_flatMap.2 ⟨p, hp, List.mem_map_of_mem hd⟩
  exact ofKey?_of_mem (List.mem_append_left _ (List.mem_append_left _ (List.mem_append_left _ hrule)))

/-- **A length, or a value that is one call, is spaced alike by every rule.** A gap and a radius set their
property to the text that the sizes and the insets set theirs to; each side of a padding or a margin
is set to that text too, with the unit `px` if it is a number. -/
theorem leading_alike (value : String) (h : isLength value.toList ∨ Math.IsOneCall value.toList) :
    Math.normalizeLeading value = Math.normalize value ∧
    (∀ p ∈ leadingProperties ++ lengthProperties,
      (ofKey? p.1).map (·.declarations value) = some (declaration p.2 (Math.normalize value))) ∧
    ∀ p ∈ spacingProperties, ∀ d ∈ spacingDirections,
      (ofKey? (p.1 ++ d.1)).map (·.declarations value) =
        some (" ".intercalate (((Generator.spacing p.2 d.2).properties value).map fun q =>
          declaration q (Math.normalize value ++
            if isSigned [""] (Math.normalize value).toList then "px" else ""))) := by
  have hsame := Math.normalizeLeading_eq_normalize h
  refine ⟨hsame, fun p hp => ?_, fun p hp d hd => ?_⟩
  · rcases List.mem_append.1 hp with hp | hp
    · rw [ofKey?_leading hp, ← hsame]
      rfl
    · rw [ofKey?_length hp]
      rfl
  · have hvalue : Generator.spacingValue value = Math.normalize value ++
        if isSigned [""] (Math.normalize value).toList then "px" else "" := by
      simp only [Generator.spacingValue]
      split
      · rfl
      · rw [String.append_empty]
    rw [ofKey?_spacing hp hd, Option.map_some, declarations, Generator.declarations_eq,
      Generator.written, hvalue]

/-- A call with a group and another call in it. -/
theorem leading_alike_nested :
    let value := "max(1px+2px,(_é_*_calc(3px/4)))"
    Math.IsOneCall value.toList ∧
      (ofKey? "radius").map (·.declarations value) =
        some "border-radius: max(1px + 2px,( é * calc(3px / 4)));" ∧
      (ofKey? "min-w").map (·.declarations value) =
        some "min-width: max(1px + 2px,( é * calc(3px / 4)));" ∧
      (ofKey? "my").map (·.declarations value) =
        some ("margin-top: max(1px + 2px,( é * calc(3px / 4))); " ++
          "margin-bottom: max(1px + 2px,( é * calc(3px / 4)));") := by
  intro value
  have hname : "max" ∈ mathFunctions := by decide
  have hbalanced : Math.IsBalanced "1px+2px,(_é_*_calc(3px/4))".toList := by decide
  have hvalue : value.toList =
      "max".toList ++ '(' :: ("1px+2px,(_é_*_calc(3px/4))".toList ++ [')']) := by decide
  have hcall : Math.IsOneCall value.toList := ⟨"max", hname, _, hvalue, hbalanced⟩
  have htext : Math.normalize value = "max(1px + 2px,( é * calc(3px / 4)))" := by
    rw [Math.normalize, hvalue, Math.normalizeFrom_call hname hbalanced]
    decide
  obtain ⟨-, hone, hsides⟩ := leading_alike value (.inr hcall)
  rw [htext] at hone hsides
  refine ⟨hcall, hone ("radius", "border-radius") (by decide), hone ("min-w", "min-width") (by decide), ?_⟩
  exact (hsides ("m", "margin") (by decide) ("y", ["top", "bottom"]) (by decide)).trans (by decide)

end Rule

end UtilityCss
