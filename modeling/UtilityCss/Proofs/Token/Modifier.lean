import UtilityCss.Markup.Candidate
import UtilityCss.Proofs.Token.Spelling

/-!
# Names behind modifiers

A name may stand behind any modifiers, with a mark or without (`modified`). Reading finds the name and the
mark, and what it finds among the modifiers does not depend on them (`parse_modified`). A segment that is
no pseudo-class and neither is nor hides a media request is passed over: the token is read as it is without
the segment (`parse_passed`).
-/

namespace UtilityCss.Token

variable {t : BreakpointTable} {segments l r : List String} {important : Bool} {name s : String}

/-- Modifiers as they are written: segments with a colon behind each. -/
def modifierText (segments : List String) : String := String.join (segments.map (· ++ ":"))

/-- A name behind modifiers, with a mark or without. -/
def modified (segments : List String) (important : Bool) (name : String) : String :=
  modifierText segments ++ if important then "!" ++ name else name

theorem modifierText_append (segments : List String) (last : String) :
    modifierText segments ++ last = ":".intercalate (segments ++ [last]) := by
  induction segments with
  | nil => simp [modifierText]
  | cons s segments ih =>
      rw [List.cons_append, String.intercalate_cons_of_ne_nil (by simp), ← ih]
      simp [modifierText, String.append_assoc]

theorem modified_nil : modified [] false name = name := String.empty_append

/-- A name that can stand behind modifiers, and be told from them and from a mark. -/
structure IsBase (name : String) : Prop where
  noColon : ':' ∉ name.toList
  noMark  : name.toList.head? ≠ some '!'

theorem split_modified (hsegments : ∀ s ∈ segments, ':' ∉ s.toList) (hname : IsBase name) :
    Text.split ':' (modified segments important name) =
      segments ++ [if important then "!" ++ name else name] := by
  rw [modified, modifierText_append]
  refine split_segments hsegments ?_
  split
  · simp [hname.noColon]
  · exact hname.noColon

/-- Reading a name behind modifiers finds a media request in the first place or none, the last
pseudo-class behind it, the name and the mark. -/
theorem parse_modified (hsegments : ∀ s ∈ segments, ':' ∉ s.toList) (hname : IsBase name)
    {media : Option Media} (hmedia : segments.head?.bind (media? t) = media) :
    parse t (modified segments important name) =
      (⟨media, lastPseudo? (if media.isSome then segments.tail else segments), name, important⟩,
        (segments.tail.filter (looksLikeMedia t)).map fun s =>
          .info (misplacedMessage s) (modified segments important name)) := by
  have hsplit : Text.split ':' (modified segments important name) = _ := split_modified hsegments hname
  have hlast : splitImportant (if important then "!" ++ name else name) = _ :=
    splitImportant_marked fun _ => hname.noMark
  simp only [parse, hsplit, List.dropLast_concat, List.getLast?_concat, Option.getD_some, hlast, hmedia]
  rfl

theorem lastName_modified (hsegments : ∀ s ∈ segments, ':' ∉ s.toList) (hname : IsBase name) :
    lastName (modified segments important name) = name := by
  rw [lastName, split_modified hsegments hname, List.getLast?_concat, Option.getD_some,
    splitImportant_marked fun _ => hname.noMark]

/-! ### Segments that are passed over -/

theorem lastPseudo?_passed (h : Pseudo.ofName? s = none) :
    lastPseudo? (l ++ s :: r) = lastPseudo? (l ++ r) := by
  rw [lastPseudo?, lastPseudo?, List.filterMap_append, List.filterMap_cons_none h, List.filterMap_append]

/-- The segment `s` between `l` and `r` is neither a pseudo-class nor, in the first place, a media request,
and it does not take that place from one. -/
structure Passed (t : BreakpointTable) (l : List String) (s : String) (r : List String) : Prop where
  noPseudo : Pseudo.ofName? s = none
  noMedia  : l = [] → media? t s = none
  noHidden : l = [] → r.head?.bind (media? t) = none

theorem colon_not_mem_others (hsegments : ∀ x ∈ l ++ s :: r, ':' ∉ x.toList) :
    ∀ x ∈ l ++ r, ':' ∉ x.toList :=
  fun x hx => hsegments x (((List.sublist_cons_self s r).append_left l).subset hx)

/-- A token is read as if a segment that is passed over were not there. -/
theorem parse_passed (h : Passed t l s r) (hsegments : ∀ x ∈ l ++ s :: r, ':' ∉ x.toList)
    (hname : IsBase name) : (parse t (modified (l ++ s :: r) important name)).1 =
      (parse t (modified (l ++ r) important name)).1 := by
  have hmedia : (l ++ s :: r).head?.bind (media? t) = (l ++ r).head?.bind (media? t) := by
    cases l with
    | nil => exact (h.noMedia rfl).trans (h.noHidden rfl).symm
    | cons a l => rfl
  rw [parse_modified hsegments hname hmedia, parse_modified (colon_not_mem_others hsegments) hname rfl]
  refine congrArg (Token.mk _ · name important) ?_
  split
  · rename_i hfound
    -- a media request was found, so it stands in front of the segment
    cases l with
    | nil =>
        have hnone : (r.head?.bind (media? t)).isSome = false := by rw [h.noHidden rfl]; rfl
        exact absurd hfound (Bool.eq_false_iff.1 hnone)
    | cons a l => exact lastPseudo?_passed h.noPseudo
  · exact lastPseudo?_passed h.noPseudo

end UtilityCss.Token
