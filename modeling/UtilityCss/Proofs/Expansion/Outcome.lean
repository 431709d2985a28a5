import UtilityCss.Proofs.Expansion.Request
import UtilityCss.Proofs.Rule.Declarations

/-!
# What comes of a token

A token has a text or a last warning that names it, never neither. A settled token is refused with
one of four messages or has a text and no warning (`Settles`); a utility whose parts are known
has the texts of its parts with spaces between, or none of its parts has a text (`assemble_cases`).
`accounts` puts both together for any expansion: a text ends with a semicolon, and no text means that
the last diagnostic is a warning about the token itself.
-/

namespace UtilityCss.Compiler

variable {c : Compiler} {token name css : String} {tokens opened : List String}
  {found : List Diagnostic} {r : Compiled} {d : Diagnostic}

/-- The message for a utility that comes to nothing. -/
def noDeclarations : String := "Plugin utility produced no declarations"

/-- The messages with which a token is refused before any other is looked at. -/
def refusals : List String :=
  ["Unknown class", "Invalid class or value", "Variant not allowed", noDeclarations]

theorem noDeclarations_mem_refusals : noDeclarations ∈ refusals := by simp [refusals]

/-- What was found while a token was read is no warning. -/
theorem isWarning_of_mem_parse {t : BreakpointTable} (h : d ∈ (Token.parse t token).2) :
    d.isWarning = false := by
  obtain ⟨s, _, rfl⟩ := List.mem_map.1 h
  rfl

theorem utilityDeclarations_empty (token : String) :
    utilityDeclarations token "" = ⟨none, [.warning noDeclarations token]⟩ := rfl

theorem utilityDeclarations_of_ne (h : css ≠ "") :
    utilityDeclarations token css = ⟨some css, []⟩ := by
  simp [utilityDeclarations, h]

/-! ### Settled tokens -/

/-- The results of a token that is settled, `found` being what was found while it was read. -/
inductive Settles (token : String) (found : List Diagnostic) : Compiled → Prop where
  | refused {m : String} (h : m ∈ refusals) : Settles token found ⟨none, found ++ [.warning m token]⟩
  | text {css : String} (h : Terminated css) : Settles token found ⟨some css, found⟩

theorem Settles.after (h : Settles token [] r) (found : List Diagnostic) :
    Settles token found (r.after found) := by
  cases h with
  | refused h => exact .refused h
  | @text css h =>
      have e : Compiled.after ⟨some css, []⟩ found = ⟨some css, found⟩ := by simp [Compiled.after]
      rw [e]
      exact .text h

theorem settles_ruleDeclarations (token : String) (t : Token) :
    Settles token [] (ruleDeclarations token t) := by
  unfold ruleDeclarations
  cases Rule.ofClass? t.name with
  | none => exact .refused (by simp [refusals])
  | some p =>
      obtain ⟨rule, value⟩ := p
      by_cases ha : rule.accepts value
      · simp only [if_pos ha]
        split
        · exact .text (terminated_markImportant _)
        · exact .text (rule.generator.terminated_declarations value)
      · simp only [if_neg ha]
        exact .refused (by simp [refusals])

/-- A utility that lists no declaration comes to nothing. -/
theorem settles_values (token : String) (values : List (String × String)) :
    Settles token [] (utilityDeclarations token (rowText values)) := by
  cases values with
  | nil => exact .refused noDeclarations_mem_refusals
  | cons v values =>
      have ht := terminated_declarations (v :: values) (List.cons_ne_nil _ _)
      rw [utilityDeclarations_of_ne ht.ne_empty]
      exact .text ht

/-- A settled token is refused, or it has a text and no warning. -/
theorem settles_of_request (h : c.request token = .settled r) :
    Settles token (Token.parse c.breakpoints token).2 r := by
  simp only [request] at h
  split at h
  · cases h
    exact (settles_ruleDeclarations _ _).after _
  · split at h
    · cases h
      exact .refused (by simp [refusals])
    · split at h
      · cases h
        exact (settles_values _ _).after _
      · cases h

/-! ### Utilities with parts -/

/-- The texts among results, in order. -/
def texts (parts : List Compiled) : List String := parts.filterMap (·.css)

theorem joinParts_fst (parts : List Compiled) : (joinParts parts).1 = " ".intercalate (texts parts) :=
  rfl

theorem joinParts_snd (parts : List Compiled) :
    (joinParts parts).2 = parts.flatMap (·.diagnostics) := rfl

/-- A utility has the texts of its parts, or no part has a text. -/
theorem assemble_cases (token : String) (found : List Diagnostic) {parts : List Compiled}
    (h : ∀ t ∈ texts parts, Terminated t) :
    (texts parts = [] ∧ assemble token found parts =
      ⟨none, found ++ parts.flatMap (·.diagnostics) ++ [.warning noDeclarations token]⟩) ∨
    (texts parts ≠ [] ∧ assemble token found parts =
      ⟨some (" ".intercalate (texts parts)), found ++ parts.flatMap (·.diagnostics)⟩) := by
  unfold assemble
  rw [joinParts_fst, joinParts_snd]
  by_cases hn : texts parts = []
  · refine .inl ⟨hn, ?_⟩
    rw [hn, String.intercalate_nil, utilityDeclarations_empty]
    rfl
  · refine .inr ⟨hn, ?_⟩
    -- the joined text is looked at, not the list: it is not empty since every part's text is not
    rw [utilityDeclarations_of_ne (terminated_intercalate h hn).ne_empty]
    simp [Compiled.after]

/-- What is found in a utility was found in its token or in a part, or is that it came to nothing. -/
theorem mem_diagnostics_assemble {parts : List Compiled}
    (h : d ∈ (assemble token found parts).diagnostics) :
    d ∈ found ∨ (∃ q ∈ parts, d ∈ q.diagnostics) ∨ d = .warning noDeclarations token := by
  have hown : d ∈ (utilityDeclarations token (joinParts parts).1).diagnostics →
      d = .warning noDeclarations token := by
    intro hd
    unfold utilityDeclarations at hd
    split at hd
    · exact List.mem_singleton.1 hd
    · exact absurd hd List.not_mem_nil
  rcases List.mem_append.1 h with h | h
  · rcases List.mem_append.1 h with h | h
    · exact .inl h
    · exact .inr (.inl (List.mem_flatMap.1 h))
  · exact .inr (.inr (hown h))

/-! ### Any expansion -/

/-- A result accounts for a token: it has a text of declarations, or it ends with a warning about
the token. -/
structure Accounts (token : String) (r : Compiled) : Prop where
  terminated : ∀ css, r.css = some css → Terminated css
  warns : r.css = none → ∃ ds m, r.diagnostics = ds ++ [.warning m token]

theorem accounts_of_warning {ds : List Diagnostic} {m : String} :
    Accounts token ⟨none, ds ++ [.warning m token]⟩ := ⟨nofun, fun _ => ⟨ds, m, rfl⟩⟩

theorem accounts_of_terminated {ds : List Diagnostic} (h : Terminated css) :
    Accounts token ⟨some css, ds⟩ := by
  refine ⟨fun _ e => ?_, nofun⟩
  cases e
  exact h

/-- Every expansion accounts for its token. -/
theorem accounts (opened : List String) (token : String) :
    Accounts token (c.declarationsIn opened token) := by
  induction opened, token using expansion_induction (c := c) with
  | settled opened token r h =>
      rw [declarationsIn_settled h]
      cases settles_of_request h with
      | refused _ => exact accounts_of_warning
      | text ht => exact accounts_of_terminated ht
  | cut opened token name tokens found h ho =>
      rw [declarationsIn_cut h ho]
      exact accounts_of_warning
  | parts opened token name tokens found h ho ih =>
      rw [declarationsIn_parts h ho]
      have ht : ∀ t ∈ texts (tokens.map (c.declarationsIn (name :: opened))), Terminated t := by
        intro t ht
        obtain ⟨q, hq, hcss⟩ := List.mem_filterMap.1 ht
        obtain ⟨part, hp, rfl⟩ := List.mem_map.1 hq
        exact (ih part hp).terminated t hcss
      rcases assemble_cases token found ht with ⟨-, e⟩ | ⟨hne, e⟩
      · rw [e]
        exact accounts_of_warning
      · rw [e]
        exact accounts_of_terminated (terminated_intercalate ht hne)

end UtilityCss.Compiler
