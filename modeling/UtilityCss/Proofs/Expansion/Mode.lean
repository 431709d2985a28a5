import UtilityCss.Proofs.Expansion.Machine

/-!
# The two modes

The declarations of a token and its rule come from one expansion: they are found together or not at
all, with the same diagnostics, and the rule is the declarations under the token's selector
(`modes_agree`). Whether a media query stands around it depends on the token alone, since the reader
of tokens takes a segment for a breakpoint only if the table has it (`get?_of_media`): the width that
the query needs is always there.
-/

namespace UtilityCss

namespace Token

variable {t : BreakpointTable} {m : Media}

theorem exists_get?_of_contains {name : String} (h : t.contains name) :
    ∃ w, t.get? name = some w :=
  Option.isSome_iff_exists.1 h

/-- A segment is read as a media request only if its breakpoint is in the table. -/
theorem get?_of_media? {segment : String} (h : media? t segment = some m) :
    ∃ w, t.get? m.name = some w := by
  have htable : (if t.contains segment then some (⟨segment, false⟩ : Media) else none) = some m →
      ∃ w, t.get? m.name = some w := by
    intro h
    split at h
    · rename_i hs
      cases h
      exact exists_get?_of_contains hs
    · cases h
  unfold media? at h
  split at h
  · rename_i n _
    by_cases hn : t.contains n
    · rw [if_pos hn] at h
      cases h
      exact exists_get?_of_contains hn
    · rw [if_neg hn] at h
      exact htable h
  · exact htable h

/-- The breakpoint that a token asks for is in the table. -/
theorem get?_of_media {token : String} (h : (parse t token).1.media = some m) :
    ∃ w, t.get? m.name = some w := by
  obtain ⟨segment, -, hm⟩ := Option.bind_eq_some_iff.1 h
  exact get?_of_media? hm

end Token

namespace Compiler
open State

variable {c : Compiler} {token css : String} {m : Media} {w : Nat}

/-! ### The text of a rule -/

/-- Declarations under the selector of a token. -/
def ruleText (token : String) (pseudo : Option Pseudo) (css : String) : String :=
  "." ++ Selector.escape token ++ (match pseudo with
    | some p => ":" ++ p.name
    | none   => "") ++ " \x7b " ++ css ++ " \x7d"

theorem wrap_of_media_none (h : (Token.parse c.breakpoints token).1.media = none) :
    c.wrap token css = ruleText token (Token.parse c.breakpoints token).1.pseudo css := by
  simp only [wrap, h, Option.bind_none]
  rfl

theorem wrap_of_media (h : (Token.parse c.breakpoints token).1.media = some m)
    (hw : c.breakpoints.get? m.name = some w) :
    c.wrap token css = mediaQuery w m.isMax ++ " \x7b\n  " ++
      ruleText token (Token.parse c.breakpoints token).1.pseudo css ++ "\n\x7d" := by
  simp only [wrap, h, Option.bind_some, hw, Option.map_some]
  rfl

/-- A media query up to the rule inside it. -/
theorem mediaQuery_append (w : Nat) (isMax : Bool) :
    mediaQuery w isMax ++ " \x7b\n  " =
      "@media (" ++ (if isMax then "max-width: " ++ toString ((w : Int) - 1)
        else "min-width: " ++ toString w) ++ "px) \x7b\n  " := by
  have hquery : mediaQuery w isMax =
      "@media (" ++ (if isMax then "max-width: " ++ toString ((w : Int) - 1)
        else "min-width: " ++ toString w) ++ "px)" := by
    cases isMax with
    | false =>
        rw [if_neg Bool.false_ne_true, ← String.append_assoc]
        rfl
    | true =>
        rw [if_pos rfl, ← String.append_assoc]
        rfl
  rw [hquery]
  exact String.append_assoc

/-- **The modes agree.**  Compiled as a rule and as declarations, a token has the same diagnostics,
before which nothing else is changed, and it has a text in both modes or in neither. The rule is the
declarations under the escaped token and its pseudo-class; and it stands in a media query just if the
token asks for a breakpoint, whose width the table has. A bound from above is one less than the
width, also where the width is 0. -/
theorem modes_agree (c : Compiler) (token : String) :
    let t := (Token.parse c.breakpoints token).1
    let d := c.compile token .declarations
    let r := c.compile token .rule
    (∀ found, c.Steps (start token .declarations found) (final d.css (found ++ d.diagnostics)) ∧
      c.Steps (start token .rule found) (final r.css (found ++ d.diagnostics))) ∧
    r.diagnostics = d.diagnostics ∧ (r.css = none ↔ d.css = none) ∧
    ∀ body, d.css = some body →
      let rule := "." ++ Selector.escape token ++ (match t.pseudo with
        | some p => ":" ++ p.name
        | none   => "") ++ " \x7b " ++ body ++ " \x7d"
      match t.media with
      | none   => r.css = some rule
      | some m => ∃ w, c.breakpoints.get? m.name = some w ∧
          r.css = some ("@media (" ++ (if m.isMax then "max-width: " ++ toString ((w : Int) - 1)
            else "min-width: " ++ toString w) ++ "px) \x7b\n  " ++ rule ++ "\n\x7d") := by
  intro t d r
  have hcss : r.css = d.css.map (c.wrap token) := rfl
  refine ⟨fun found => ⟨steps_final c token .declarations found, steps_final c token .rule found⟩,
    rfl, by rw [hcss, Option.map_eq_none_iff], fun body hbody => ?_⟩
  rw [hcss, hbody, Option.map_some]
  intro rule
  cases hm : t.media with
  | none => exact congrArg some (wrap_of_media_none hm)
  | some m =>
      obtain ⟨w, hw⟩ := Token.get?_of_media hm
      refine ⟨w, hw, congrArg some ?_⟩
      rw [wrap_of_media hm hw, mediaQuery_append]
      rfl

/-- A breakpoint of width 0, below which there is nothing. -/
def collapsed : Compiler := { default with breakpoints := BreakpointTable.default.insert "xs" 0 }

theorem modes_agree_collapsed :
    (collapsed.compile "max-xs:hover:!p-[4px]" .declarations).css =
      some "padding: 4px !important;" ∧
    (collapsed.compile "max-xs:hover:!p-[4px]" .rule).css =
      some ("@media (max-width: -1px) \x7b\n  " ++ ".max-xs\\:hover\\:\\!p-\\[4px\\]:hover" ++
        " \x7b padding: 4px !important; \x7d\n\x7d") := by
  have hbody : (collapsed.compile "max-xs:hover:!p-[4px]" .declarations).css =
      some "padding: 4px !important;" := by decide +kernel
  have hmedia : (Token.parse collapsed.breakpoints "max-xs:hover:!p-[4px]").1.media =
      some ⟨"xs", true⟩ := by decide +kernel
  have hwidth : collapsed.breakpoints.get? "xs" = some 0 := by decide +kernel
  obtain ⟨-, -, -, h⟩ := modes_agree collapsed "max-xs:hover:!p-[4px]"
  have hrule := h _ hbody
  rw [hmedia] at hrule
  obtain ⟨w, hw, hr⟩ := hrule
  cases hwidth.symm.trans hw
  refine ⟨hbody, hr.trans ?_⟩
  decide +kernel

end Compiler

end UtilityCss
