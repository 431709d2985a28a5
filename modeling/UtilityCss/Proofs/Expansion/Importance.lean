import UtilityCss.Compiler.Configuration
import UtilityCss.Proofs.Expansion.Outcome
import UtilityCss.Proofs.Token.Modifier
import Mathlib.Data.List.Forall2

/-!
# Marks of importance

A mark changes nothing in how a token is read but that it is there (`Token.parse_marked`). A rule answers
to it at the end of its text and nowhere else (`Compiler.ruleDeclarations_marked`); a utility does not
answer to it, since its parts are tokens of their own (`Compiler.answers_of_get?_eq_some`). What is found on
the way names the token with the mark in place of the one without (`Compiler.importance_is_uniform`).
-/

namespace UtilityCss

/-- A diagnostic is the other, or it names a token in place of another. -/
def Diagnostic.Renames (plain marked : String) (d d' : Diagnostic) : Prop :=
  d' = d ∨ d.token = plain ∧ d' = { d with token := marked }

/-! ### Tokens -/

namespace Token

variable {t : BreakpointTable} {segments : List String} {name : String}

/-- Behind a mark a name is read as without it, and what is found names the token with the mark. -/
theorem parse_marked (hsegments : ∀ s ∈ segments, ':' ∉ s.toList) (hname : IsBase name) :
    parse t (modified segments true name) =
      ({ (parse t (modified segments false name)).1 with important := true },
        (parse t (modified segments false name)).2.map
          ({ · with token := modified segments true name })) := by
  rw [parse_modified hsegments hname rfl, parse_modified hsegments hname rfl, List.map_map]
  rfl

theorem important_plain (hsegments : ∀ s ∈ segments, ':' ∉ s.toList) (hname : IsBase name) :
    (parse t (modified segments false name)).1.important = false := by
  rw [parse_modified hsegments hname rfl]

theorem token_of_mem_parse {token : String} {d : Diagnostic} (h : d ∈ (parse t token).2) :
    d.token = token := by
  obtain ⟨s, -, rfl⟩ := List.mem_map.1 h
  rfl

end Token

namespace Compiler
open Diagnostic (Renames)

variable {c : Compiler} {plain marked name : String} {found found' : List Diagnostic} {r r' : Compiled}
  {f : String → String} {segments : List String}

/-! ### Results of the two tokens -/

/-- The second result has the text of the first one, changed by `f`, and its diagnostics, with the marked
token named in place of the plain one. -/
structure Answers (f : String → String) (plain marked : String) (r r' : Compiled) : Prop where
  css         : r'.css = r.css.map f
  diagnostics : List.Forall₂ (Renames plain marked) r.diagnostics r'.diagnostics

theorem renames_refl (l : List Diagnostic) : List.Forall₂ (Renames plain marked) l l :=
  List.forall₂_same.2 fun _ _ => .inl rfl

theorem Answers.after (h : Answers f plain marked r r')
    (hfound : List.Forall₂ (Renames plain marked) found found') :
    Answers f plain marked (r.after found) (r'.after found') :=
  ⟨h.css, List.rel_append hfound h.diagnostics⟩

theorem answers_refused (message : String) :
    Answers f plain marked ⟨none, [.warning message plain]⟩ ⟨none, [.warning message marked]⟩ :=
  ⟨rfl, .cons (.inr ⟨rfl, rfl⟩) .nil⟩

theorem answers_utilityDeclarations (css : String) :
    Answers id plain marked (utilityDeclarations plain css) (utilityDeclarations marked css) := by
  unfold utilityDeclarations
  split
  · exact answers_refused _
  · exact ⟨rfl, .nil⟩

/-- What is found in reading the two tokens is the same but for their names. -/
theorem renames_parse (hsegments : ∀ s ∈ segments, ':' ∉ s.toList) (hname : Token.IsBase name) :
    List.Forall₂ (Renames (Token.modified segments false name) (Token.modified segments true name))
      (Token.parse c.breakpoints (Token.modified segments false name)).2
      (Token.parse c.breakpoints (Token.modified segments true name)).2 := by
  rw [Token.parse_marked hsegments hname, List.forall₂_map_right_iff, List.forall₂_same]
  exact fun d hd => .inr ⟨Token.token_of_mem_parse hd, rfl⟩

/-! ### Rules -/

/-- A rule marks its last declaration and does nothing else. -/
theorem ruleDeclarations_marked (t : Token) (h : t.important = false) :
    Answers ruleDeclarations.markImportant plain marked (ruleDeclarations plain t)
      (ruleDeclarations marked { t with important := true }) := by
  simp only [ruleDeclarations]
  split
  · exact answers_refused _
  · split
    · rw [h]
      exact ⟨rfl, .nil⟩
    · exact answers_refused _

/-- A token that names no utility has the same text behind a mark, but for its end. -/
theorem answers_of_get?_eq_none (hu : c.registry.get? name = none)
    (hsegments : ∀ s ∈ segments, ':' ∉ s.toList) (hname : Token.IsBase name) :
    Answers ruleDeclarations.markImportant (Token.modified segments false name)
      (Token.modified segments true name) (c.declarationsIn [] (Token.modified segments false name))
      (c.declarationsIn [] (Token.modified segments true name)) := by
  have hat : ∀ important, c.registry.get? (Token.lastName (Token.modified segments important name)) =
      none := by
    intro important
    rw [Token.lastName_modified hsegments hname, hu]
  rw [declarationsIn_settled (request_of_get?_eq_none (hat false)),
    declarationsIn_settled (request_of_get?_eq_none (hat true))]
  refine Answers.after ?_ (renames_parse hsegments hname)
  rw [Token.parse_marked hsegments hname]
  exact ruleDeclarations_marked _ (Token.important_plain hsegments hname)

/-! ### Utilities -/

/-- A utility has the same text behind a mark, whatever names are open: the mark is no part of what its
parts are compiled with. -/
theorem answers_of_get?_eq_some {u : Utility} (hu : c.registry.get? name = some u)
    (hsegments : ∀ s ∈ segments, ':' ∉ s.toList) (hname : Token.IsBase name) (opened : List String) :
    Answers id (Token.modified segments false name) (Token.modified segments true name)
      (c.declarationsIn opened (Token.modified segments false name))
      (c.declarationsIn opened (Token.modified segments true name)) := by
  have hlast : ∀ important, Token.lastName (Token.modified segments important name) = name :=
    fun important => Token.lastName_modified hsegments hname
  have hat : ∀ important, c.registry.get? (Token.lastName (Token.modified segments important name)) =
      some u := by
    intro important
    rw [hlast, hu]
  have hfound := renames_parse (c := c) hsegments hname
  have hadmits : ∀ important,
      u.admits (Token.parse c.breakpoints (Token.modified segments important name)).1 =
        u.admits (Token.parse c.breakpoints (Token.modified segments false name)).1 := by
    intro important
    cases important with
    | false => rfl
    | true => rw [Token.parse_marked hsegments hname]; rfl
  by_cases ha : u.admits (Token.parse c.breakpoints (Token.modified segments false name)).1
  · have hadmitted : ∀ important,
        u.admits (Token.parse c.breakpoints (Token.modified segments important name)).1 :=
      fun important => (hadmits important).trans ha
    cases hs : u.styles with
    | declarations values =>
        rw [declarationsIn_settled (request_of_declarations (hat false) hs (hadmitted false)),
          declarationsIn_settled (request_of_declarations (hat true) hs (hadmitted true))]
        exact (answers_utilityDeclarations _).after hfound
    | compose text =>
        have hparts := fun important => request_of_compose (hat important) hs (hadmitted important)
        simp only [hlast] at hparts
        by_cases ho : name ∈ opened
        · rw [declarationsIn_cut (hparts false) ho, declarationsIn_cut (hparts true) ho]
          exact (answers_refused _).after hfound
        · -- the parts are the same tokens, with the same names open around them
          rw [declarationsIn_parts (hparts false) ho, declarationsIn_parts (hparts true) ho]
          exact (answers_utilityDeclarations _).after (List.rel_append hfound (renames_refl _))
  · have hrefused : ∀ important,
        ¬ u.admits (Token.parse c.breakpoints (Token.modified segments important name)).1 := by
      intro important
      rw [hadmits]
      exact ha
    rw [declarationsIn_settled (request_of_not_admits (hat false) (hrefused false)),
      declarationsIn_settled (request_of_not_admits (hat true) (hrefused true))]
    exact (answers_refused _).after hfound

/-- **A mark of importance is uniform.**  Take a name behind modifiers, without a mark and with one. If the
name is no utility, both tokens have declarations or neither has, and the text of the marked one is that
of the other with ` !important;` in place of its last semicolon. If it is a utility, both have the same
text. Whichever it is, the same is found for both, but that a diagnostic may name the marked token where
the other names the plain one. -/
theorem importance_is_uniform (c : Compiler) {name : String} (hname : Token.IsBase name)
    {segments : List String} (hsegments : ∀ s ∈ segments, ':' ∉ s.toList) :
    let plain := Token.modified segments false name
    let marked := Token.modified segments true name
    let r := c.compile plain .declarations
    let r' := c.compile marked .declarations
    (c.registry.get? name = none → (r'.css.isSome ↔ r.css.isSome) ∧
      ∀ css, r.css = some css → ∃ s, css = s ++ ";" ∧ r'.css = some (s ++ " !important;")) ∧
    (c.registry.get? name ≠ none → r'.css = r.css) ∧
    List.Forall₂ (Renames plain marked) r.diagnostics r'.diagnostics := by
  intro plain marked r r'
  cases hu : c.registry.get? name with
  | none =>
      have h := answers_of_get?_eq_none hu hsegments hname
      refine ⟨fun _ => ⟨?_, fun css hcss => ?_⟩, fun hne => absurd rfl hne, h.diagnostics⟩
      · rw [show r'.css = _ from h.css, Option.isSome_map]
        rfl
      · obtain ⟨s, rfl⟩ := (accounts [] plain).terminated css hcss
        refine ⟨s, rfl, ?_⟩
        rw [show r'.css = _ from h.css, show (c.declarationsIn [] plain).css = _ from hcss, Option.map_some,
          markImportant_append_semicolon]
  | some u =>
      have h := answers_of_get?_eq_some hu hsegments hname []
      exact ⟨nofun, fun _ => h.css.trans Option.map_id', h.diagnostics⟩

/-- A utility made of two tokens, one with a mark of its own. -/
def composed : Compiler := default.register [("chip", .compose "!m-[0] px-[4px]")] .all

/-- Of two declarations the last one is marked, and a mark on a utility is nowhere in its text. -/
theorem importance_is_uniform_composed :
    (composed.compile "md:hover:px-[4px]" .declarations).css =
      some "padding-left: 4px; padding-right: 4px;" ∧
    (composed.compile "md:hover:!px-[4px]" .declarations).css =
      some "padding-left: 4px; padding-right: 4px !important;" ∧
    (composed.compile "md:hover:!chip" .declarations).css =
      (composed.compile "md:hover:chip" .declarations).css := by
  have hsegments : ∀ s ∈ ["md", "hover"], ':' ∉ s.toList := by decide
  have hrule : Token.IsBase "px-[4px]" := ⟨by decide, by decide⟩
  have hutility : Token.IsBase "chip" := ⟨by decide, by decide⟩
  have hplain : (composed.compile "md:hover:px-[4px]" .declarations).css =
      some "padding-left: 4px; padding-right: 4px;" := by decide +kernel
  obtain ⟨s, hs, hmarked⟩ :=
    ((importance_is_uniform composed hrule hsegments).1 (by decide +kernel)).2 _ hplain
  have hsame := (importance_is_uniform composed hutility hsegments).2.1 (by decide +kernel)
  refine ⟨hplain, ?_, hsame⟩
  obtain rfl : s = "padding-left: 4px; padding-right: 4px" := String.append_left_inj ";" |>.1 hs.symm
  exact hmarked

end Compiler

end UtilityCss
