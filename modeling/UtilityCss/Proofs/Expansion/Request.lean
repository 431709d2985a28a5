import UtilityCss.Markup.Candidate
import UtilityCss.Proofs.Rule.Declarations

/-!
# What a token asks for

Reading a token against a configuration leaves one question open: whether the utility it names is
being expanded already. All the rest is settled by the token alone, and `Request` is what it settles:
the result, or the parts of a composite utility. Expansion is then one rule at a request
(`declarationsIn_eq`) and an induction on the names that are not open (`expansion_induction`); no
later proof opens `declarationsIn` again.
-/

namespace UtilityCss

/-- What a token asks for. -/
inductive Request where
  /-- Nothing more: this is its result. -/
  | settled (r : Compiled)
  /-- The parts of the utility `name`; `found` was found while the token was read. -/
  | parts (name : String) (tokens : List String) (found : List Diagnostic)
deriving DecidableEq

namespace Token

/-- The name in a token does not depend on the breakpoints. -/
theorem parse_name (t : BreakpointTable) (token : String) :
    (parse t token).1.name = lastName token := rfl

end Token

namespace Compiler

variable {c : Compiler} {token name : String} {tokens opened : List String}
  {found : List Diagnostic} {r : Compiled}

/-- What a token asks for in a configuration. -/
def request (c : Compiler) (token : String) : Request :=
  let (t, found) := Token.parse c.breakpoints token
  match c.registry.get? t.name with
  | none   => .settled ((ruleDeclarations token t).after found)
  | some u =>
    if !u.admits t then .settled ⟨none, found ++ [.warning "Variant not allowed" token]⟩
    else match u.styles with
      | .declarations values =>
        .settled ((utilityDeclarations token
          (" ".intercalate (values.entries.map fun d => declaration d.1 d.2))).after found)
      | .compose tokens => .parts t.name (Text.words tokens) found

/-- The report of a utility that leads back to itself. -/
def cycleMessage (name : String) : String :=
  "Plugin utility \"" ++ name ++ "\" composes itself"

/-- The result for a utility that is being expanded already. -/
def cut (token name : String) (found : List Diagnostic) : Compiled :=
  ⟨none, found ++ [.warning (cycleMessage name) token]⟩

/-- The result for a utility whose parts have the given results. -/
def assemble (token : String) (found : List Diagnostic) (parts : List Compiled) : Compiled :=
  (utilityDeclarations token (joinParts parts).1).after (found ++ (joinParts parts).2)

/-! ### Requests by what is registered -/

/-- A token that names no utility is settled by the rules. -/
theorem request_of_get?_eq_none (hu : c.registry.get? (Token.lastName token) = none) :
    c.request token = .settled ((ruleDeclarations token (Token.parse c.breakpoints token).1).after
      (Token.parse c.breakpoints token).2) := by
  rw [← Token.parse_name c.breakpoints] at hu
  simp [request, hu]

/-- A token that may use a composite utility asks for its parts. -/
theorem request_of_compose {u : Utility} {text : String}
    (hu : c.registry.get? (Token.lastName token) = some u) (hs : u.styles = .compose text)
    (ha : u.admits (Token.parse c.breakpoints token).1) :
    c.request token = .parts (Token.lastName token) (Text.words text)
      (Token.parse c.breakpoints token).2 := by
  rw [← Token.parse_name c.breakpoints] at hu ⊢
  simp [request, hu, ha, hs]

/-- A token that may use a utility with declarations is settled by them. -/
theorem request_of_declarations {u : Utility} {values : OrderedMap String String}
    (hu : c.registry.get? (Token.lastName token) = some u) (hs : u.styles = .declarations values)
    (ha : u.admits (Token.parse c.breakpoints token).1) :
    c.request token = .settled ((utilityDeclarations token (rowText values.entries)).after
      (Token.parse c.breakpoints token).2) := by
  rw [← Token.parse_name c.breakpoints] at hu
  simp [request, hu, ha, hs, rowText]

/-- A token that may not use its utility in the way it asks to is refused. -/
theorem request_of_not_admits {u : Utility} (hu : c.registry.get? (Token.lastName token) = some u)
    (ha : ¬ u.admits (Token.parse c.breakpoints token).1) :
    c.request token = .settled ⟨none, (Token.parse c.breakpoints token).2 ++
      [.warning "Variant not allowed" token]⟩ := by
  rw [← Token.parse_name c.breakpoints] at hu
  simp [request, hu, ha]

/-- Nothing else asks for parts. -/
theorem compose_of_request (h : c.request token = .parts name tokens found) :
    ∃ u text, c.registry.get? (Token.lastName token) = some u ∧ u.styles = .compose text ∧
      u.admits (Token.parse c.breakpoints token).1 ∧ name = Token.lastName token ∧
      tokens = Text.words text ∧ found = (Token.parse c.breakpoints token).2 := by
  rw [← Token.parse_name c.breakpoints]
  simp only [request] at h
  split at h
  · cases h
  · rename_i u hu
    split at h
    · cases h
    · rename_i ha
      split at h
      · cases h
      · rename_i text hs
        cases h
        exact ⟨u, text, hu, hs, by simpa using ha, rfl, rfl, rfl⟩

theorem name_eq_of_request (h : c.request token = .parts name tokens found) :
    name = Token.lastName token := by
  obtain ⟨_, _, _, _, _, hn, _⟩ := compose_of_request h
  exact hn

theorem mem_names_of_request (h : c.request token = .parts name tokens found) :
    name ∈ c.registry.names := by
  obtain ⟨u, _, hu, _, _, rfl, _⟩ := compose_of_request h
  exact Registry.mem_names_of_get? hu

/-! ### Expansion at a request -/

/-- Expansion, request by request. -/
theorem declarationsIn_eq (c : Compiler) (opened : List String) (token : String) :
    c.declarationsIn opened token =
      match c.request token with
      | .settled r => r
      | .parts name tokens found =>
        if name ∈ opened then cut token name found
        else assemble token found (tokens.map (c.declarationsIn (name :: opened))) := by
  rw [declarationsIn]
  simp only [request]
  split
  · rename_i hu
    simp only [hu]
  · rename_i u hu
    simp only [hu]
    cases ha : u.admits (Token.parse c.breakpoints token).1 with
    | false => rfl
    | true =>
      cases hs : u.styles with
      | declarations values => rfl
      | compose text =>
        simp only [List.contains_iff_mem]
        rfl

theorem declarationsIn_settled (h : c.request token = .settled r) :
    c.declarationsIn opened token = r := by
  rw [declarationsIn_eq, h]

theorem declarationsIn_cut (h : c.request token = .parts name tokens found) (ho : name ∈ opened) :
    c.declarationsIn opened token = cut token name found := by
  rw [declarationsIn_eq, h]
  exact if_pos ho

theorem declarationsIn_parts (h : c.request token = .parts name tokens found)
    (ho : name ∉ opened) :
    c.declarationsIn opened token =
      assemble token found (tokens.map (c.declarationsIn (name :: opened))) := by
  rw [declarationsIn_eq, h]
  exact if_neg ho

/-- **Induction on an expansion.**  A token is settled, or it is cut off, or what holds of its parts,
with its name open, holds of it. -/
@[elab_as_elim]
theorem expansion_induction {motive : List String → String → Prop}
    (settled : ∀ opened token r, c.request token = .settled r → motive opened token)
    (cut : ∀ opened token name tokens found, c.request token = .parts name tokens found →
      name ∈ opened → motive opened token)
    (parts : ∀ opened token name tokens found, c.request token = .parts name tokens found →
      name ∉ opened → (∀ part ∈ tokens, motive (name :: opened) part) → motive opened token)
    (opened : List String) (token : String) : motive opened token := by
  -- The measure of `declarationsIn`: an opened name was registered and not open.
  induction hn : (c.unopened opened).length using Nat.strongRecOn
    generalizing opened token with
  | _ n ih =>
    subst hn
    cases h : c.request token with
    | settled r => exact settled _ _ _ h
    | parts name tokens found =>
      by_cases ho : name ∈ opened
      · exact cut _ _ _ _ _ h ho
      · refine parts _ _ _ _ _ h ho fun part _ => ih _ ?_ _ _ rfl
        exact length_unopened_cons (mem_names_of_request h) (by simpa using ho)

/-! ### Compiling in a mode -/

/-- Declarations as a mode writes them. -/
def emit (c : Compiler) (token : String) (mode : EmitMode) (css : String) : String :=
  match mode with
  | .declarations => css
  | .rule         => c.wrap token css

/-- Compiling writes what a token expands to, and changes nothing in what was found. -/
theorem compile_eq (c : Compiler) (token : String) (mode : EmitMode) : c.compile token mode =
    ⟨(c.declarationsIn [] token).css.map (c.emit token mode), (c.declarationsIn [] token).diagnostics⟩ := by
  cases mode with
  | declarations => exact congrArg (Compiled.mk · _) Option.map_id'.symm
  | rule => rfl

theorem compile_css (c : Compiler) (token : String) (mode : EmitMode) :
    (c.compile token mode).css = (c.declarationsIn [] token).css.map (c.emit token mode) := by
  rw [compile_eq]

theorem compile_diagnostics (c : Compiler) (token : String) (mode : EmitMode) :
    (c.compile token mode).diagnostics = (c.declarationsIn [] token).diagnostics := by
  rw [compile_eq]

end Compiler

end UtilityCss
