import UtilityCss.Rule.Table
import UtilityCss.Selector
import UtilityCss.Text.Blank
import UtilityCss.Utility.Registry

/-!
# Compiling class tokens

A token compiles to the declarations of the utility or the rule that its name stands for, a utility
first; as a rule of a stylesheet these stand under its selector, and under a media query if it asks
for a breakpoint. A token that compiles to nothing leaves a warning that names it.

A composite utility takes over the declarations of its parts, which may be composite again. While a
utility is being expanded its name is open, and an open name is not expanded a second time; so each
step down opens a registered name that was not open, and expansion ends.
-/

namespace UtilityCss

/-- What a token is compiled to. -/
inductive EmitMode where
  /-- A rule of a stylesheet. -/
  | rule
  /-- Declarations alone. -/
  | declarations
deriving DecidableEq, Repr

/-- The text of a token, if it has one, and what was found on the way. -/
structure Compiled where
  css         : Option String
  diagnostics : List Diagnostic
deriving DecidableEq, Repr

/-- Puts diagnostics before those of a result. -/
def Compiled.after (r : Compiled) (ds : List Diagnostic) : Compiled :=
  ⟨r.css, ds ++ r.diagnostics⟩

/-- What tokens are compiled against. -/
structure Compiler where
  breakpoints : BreakpointTable
  registry    : Registry
deriving DecidableEq

namespace Compiler

/-- The compiler of an empty configuration. -/
def default : Compiler := ⟨.default, ∅⟩

instance : Inhabited Compiler := ⟨default⟩

/-- The registered names that are not open. -/
def unopened (c : Compiler) (opened : List String) : List String :=
  c.registry.names.filter fun n => !opened.contains n

theorem length_filter_le {l : List String} {p q : String → Bool} (h : ∀ b, p b → q b) :
    (l.filter p).length ≤ (l.filter q).length := by
  simpa only [List.countP_eq_length_filter] using List.countP_mono_left fun b _ => h b

theorem length_filter_lt {l : List String} {p q : String → Bool} {a : String} (ha : a ∈ l)
    (hp : p a = false) (hq : q a) (h : ∀ b, p b → q b) :
    (l.filter p).length < (l.filter q).length := by
  induction l with
  | nil => simp at ha
  | cons b l ih =>
    rcases List.mem_cons.1 ha with rfl | ha
    · simpa [hp, hq, Nat.lt_succ_iff] using length_filter_le h
    · have hl := ih ha
      have hb := h b
      cases hpb : p b with
      | true => simpa [hpb, hb hpb] using hl
      | false =>
        cases hqb : q b with
        | true => simpa [hpb, hqb] using Nat.lt_succ_of_lt hl
        | false => simpa [hpb, hqb] using hl

theorem length_unopened_cons {c : Compiler} {opened : List String} {name : String}
    (hr : name ∈ c.registry.names) (ho : opened.contains name = false) :
    (c.unopened (name :: opened)).length < (c.unopened opened).length := by
  refine length_filter_lt hr (by simp) (by simpa using ho) fun b hb => ?_
  simp only [List.contains_cons, Bool.not_or, Bool.and_eq_true] at hb
  exact hb.2

/-- The declarations of a token that names a rule, with `!important` after the last if asked for. -/
def ruleDeclarations (token : String) (t : Token) : Compiled :=
  match Rule.ofClass? t.name with
  | none => ⟨none, [.warning "Unknown class" token]⟩
  | some (rule, value) =>
    if rule.accepts value then
      let css := rule.declarations value
      ⟨some (if t.important then markImportant css else css), []⟩
    else ⟨none, [.warning "Invalid class or value" token]⟩
where
  /-- The last declaration marked as important. -/
  markImportant (css : String) : String :=
    let body := match Text.dropSuffix? [';'] css.toList with
      | some r => String.ofList r
      | none   => css
    body ++ " !important;"

/-- The result for a utility with the given declarations, of which there must be some. -/
def utilityDeclarations (token css : String) : Compiled :=
  if css.isEmpty then ⟨none, [.warning "Plugin utility produced no declarations" token]⟩
  else ⟨some css, []⟩

/-- The results of several tokens in order: their texts with spaces between, and what was found. -/
def joinParts (parts : List Compiled) : String × List Diagnostic :=
  (" ".intercalate (parts.filterMap (·.css)), parts.flatMap (·.diagnostics))

/-- The declarations of a token while the utilities `opened` are being expanded. -/
def declarationsIn (c : Compiler) (opened : List String) (token : String) : Compiled :=
  let (t, found) := Token.parse c.breakpoints token
  match _hu : c.registry.get? t.name with
  | none => (ruleDeclarations token t).after found
  | some u =>
    if !u.admits t then ⟨none, found ++ [.warning "Variant not allowed" token]⟩
    else match u.styles with
      | .declarations values =>
        (utilityDeclarations token
          (" ".intercalate (values.entries.map fun d => declaration d.1 d.2))).after found
      | .compose tokens =>
        if _ho : opened.contains t.name then
          ⟨none, found ++
            [.warning ("Plugin utility \"" ++ t.name ++ "\" composes itself") token]⟩
        else
          let (css, inner) := joinParts
            ((Text.words tokens).map fun part => c.declarationsIn (t.name :: opened) part)
          (utilityDeclarations token css).after (found ++ inner)
termination_by (c.unopened opened).length
decreasing_by
  exact length_unopened_cons (Registry.mem_names_of_get? _hu) (by simpa using _ho)

/-- The condition on the viewport for a breakpoint of the given width. -/
def mediaQuery (width : Nat) (isMax : Bool) : String :=
  if isMax then "@media (max-width: " ++ toString ((width : Int) - 1) ++ "px)"
  else "@media (min-width: " ++ toString width ++ "px)"

/-- Declarations under the selector of a token, inside a media query if it asks for one. -/
def wrap (c : Compiler) (token css : String) : String :=
  let t := (Token.parse c.breakpoints token).1
  let selector := "." ++ Selector.escape token ++ (match t.pseudo with
    | some p => ":" ++ p.name
    | none   => "")
  let rule := selector ++ " \x7b " ++ css ++ " \x7d"
  match t.media.bind fun m => (c.breakpoints.get? m.name).map (·, m.isMax) with
  | some (width, isMax) => mediaQuery width isMax ++ " \x7b\n  " ++ rule ++ "\n\x7d"
  | none                => rule

/-- Compiles a token. -/
def compile (c : Compiler) (token : String) (mode : EmitMode) : Compiled :=
  let r := c.declarationsIn [] token
  match mode with
  | .declarations => r
  | .rule         => ⟨r.css.map (c.wrap token), r.diagnostics⟩

end Compiler

end UtilityCss
