import UtilityCss.Compiler.Configuration
import UtilityCss.Proofs.Expansion.Request
import Mathlib.Data.List.Perm.Subperm
import Mathlib.Logic.Relation

/-!
# Expansion in place

The same expansion with one stack of open names and one list of diagnostics, both changed in place: a
utility puts its name on the stack before its parts are compiled and takes the top of the stack off
behind them. Nothing in a step looks at what a pop removes, so that pushes and pops match is a fact
about runs: the stack is always the names of the utilities whose parts are being compiled
(`Balanced`).

`steps_leave` ties the machine to `declarationsIn`, which hands the open names down: every call runs
to its return, with that result, the same callers and the same stack. `expansion_terminates` is the
whole statement for a token that is compiled from an empty stack.
-/

namespace UtilityCss

/-- A utility whose parts are being compiled. -/
structure Frame where
  token : String
  mode  : EmitMode
  /-- The parts that are still to come. -/
  rest  : List String
  /-- The declarations of the parts so far. -/
  texts : List String

/-- What the machine does next. -/
inductive Control where
  /-- Compile a token. -/
  | enter (token : String) (mode : EmitMode)
  /-- Go on with the innermost utility. -/
  | resume
  /-- Hand over the text of a token, if it has one. -/
  | leave (css : Option String)

/-- A state of the machine. -/
structure State where
  control : Control
  /-- The utilities around the token, innermost first. -/
  frames  : List Frame
  /-- The stack of open names, top first. -/
  opened  : List String
  found   : List Diagnostic

namespace State

/-- The state in which the compilation of a token begins. -/
def start (token : String) (mode : EmitMode) (found : List Diagnostic) : State :=
  ⟨.enter token mode, [], [], found⟩

/-- The state in which it ends. -/
def final (css : Option String) (found : List Diagnostic) : State := ⟨.leave css, [], [], found⟩

/-- The return from a token with a result. -/
def leave (c : Compiler) (token : String) (mode : EmitMode) (frames : List Frame)
    (opened : List String) (found : List Diagnostic) (r : Compiled) : State :=
  ⟨.leave (r.css.map (c.emit token mode)), frames, opened, found ++ r.diagnostics⟩

end State

namespace Compiler
open State

/-- One step. -/
inductive Step (c : Compiler) : State → State → Prop where
  | settle {token : String} {mode : EmitMode} {K : List Frame} {S : List String}
      {D : List Diagnostic} {r : Compiled} (h : c.request token = .settled r) :
      Step c ⟨.enter token mode, K, S, D⟩ (leave c token mode K S D r)
  | cut {token name : String} {mode : EmitMode} {K : List Frame} {S tokens : List String}
      {D found : List Diagnostic} (h : c.request token = .parts name tokens found) (ho : name ∈ S) :
      Step c ⟨.enter token mode, K, S, D⟩ (leave c token mode K S D (cut token name found))
  | push {token name : String} {mode : EmitMode} {K : List Frame} {S tokens : List String}
      {D found : List Diagnostic} (h : c.request token = .parts name tokens found) (ho : name ∉ S) :
      Step c ⟨.enter token mode, K, S, D⟩
        ⟨.resume, ⟨token, mode, tokens, []⟩ :: K, name :: S, D ++ found⟩
  | part {token p : String} {mode : EmitMode} {rest texts : List String} {K : List Frame}
      {S : List String} {D : List Diagnostic} :
      Step c ⟨.resume, ⟨token, mode, p :: rest, texts⟩ :: K, S, D⟩
        ⟨.enter p .declarations, ⟨token, mode, rest, texts⟩ :: K, S, D⟩
  | pop {token : String} {mode : EmitMode} {texts : List String} {K : List Frame}
      {S : List String} {D : List Diagnostic} :
      Step c ⟨.resume, ⟨token, mode, [], texts⟩ :: K, S, D⟩
        (leave c token mode K S.tail D (utilityDeclarations token (" ".intercalate texts)))
  | take {token : String} {mode : EmitMode} {rest texts : List String} {css : Option String}
      {K : List Frame} {S : List String} {D : List Diagnostic} :
      Step c ⟨.leave css, ⟨token, mode, rest, texts⟩ :: K, S, D⟩
        ⟨.resume, ⟨token, mode, rest, texts ++ css.toList⟩ :: K, S, D⟩

/-- Any number of steps. -/
def Steps (c : Compiler) : State → State → Prop := Relation.ReflTransGen c.Step

variable {c : Compiler} {token : String} {mode : EmitMode} {found : List Diagnostic}
  {s s' t : State}

theorem Steps.one (h : c.Step s s') : c.Steps s s' := .single h

theorem Steps.trans (h : c.Steps s s') (h' : c.Steps s' t) : c.Steps s t :=
  Relation.ReflTransGen.trans h h'

/-! ### A call runs to its return -/

theorem texts_append (texts : List String) (r : Compiled) (rs : List Compiled) :
    (texts ++ r.css.toList) ++ rs.filterMap (·.css) = texts ++ (r :: rs).filterMap (·.css) := by
  cases h : r.css <;> simp [h]

/-- The parts of a utility run one after the other, if each runs to its return. -/
theorem steps_parts (token : String) (mode : EmitMode) (K : List Frame) {S : List String}
    {tokens : List String} {result : String → Compiled}
    (hp : ∀ p ∈ tokens, ∀ (K : List Frame) (D : List Diagnostic),
      c.Steps ⟨.enter p .declarations, K, S, D⟩ (leave c p .declarations K S D (result p)))
    (texts : List String) (D : List Diagnostic) :
    c.Steps ⟨.resume, ⟨token, mode, tokens, texts⟩ :: K, S, D⟩
      ⟨.resume, ⟨token, mode, [], texts ++ (tokens.map result).filterMap (·.css)⟩ :: K, S,
        D ++ (tokens.map result).flatMap (·.diagnostics)⟩ := by
  induction tokens generalizing texts D with
  | nil =>
      simp only [List.map_nil, List.filterMap_nil, List.flatMap_nil, List.append_nil]
      exact .refl
  | cons p tokens ih =>
      have hq : ∀ q ∈ tokens, ∀ (K : List Frame) (D : List Diagnostic), c.Steps
          ⟨.enter q .declarations, K, S, D⟩ (leave c q .declarations K S D (result q)) :=
        fun q hq => hp q (List.mem_cons_of_mem _ hq)
      have hcss : (result p).css.map (c.emit p .declarations) = (result p).css := Option.map_id'
      have hone := hp p List.mem_cons_self (⟨token, mode, tokens, texts⟩ :: K) D
      rw [leave, hcss] at hone
      have hrest := ih hq (texts ++ (result p).css.toList) (D ++ (result p).diagnostics)
      rw [texts_append, List.append_assoc, ← List.map_cons] at hrest
      -- the part is entered, returns, and its text is taken over
      exact (Steps.one .part).trans (hone.trans ((Steps.one .take).trans hrest))

/-- **Every call returns**, with the result of the expansion, to the same callers and with the same
stack. -/
theorem steps_leave (S : List String) (token : String) :
    ∀ (mode : EmitMode) (K : List Frame) (D : List Diagnostic),
      c.Steps ⟨.enter token mode, K, S, D⟩ (leave c token mode K S D (c.declarationsIn S token)) := by
  induction S, token using expansion_induction (c := c) with
  | settled S token r h =>
      intro mode K D
      rw [declarationsIn_settled h]
      exact .one (.settle h)
  | cut S token name tokens found h ho =>
      intro mode K D
      rw [declarationsIn_cut h ho]
      exact .one (.cut h ho)
  | parts S token name tokens found h ho ih =>
      intro mode K D
      have hparts := steps_parts token mode K
        (fun p hp K D => ih p hp .declarations K D) [] (D ++ found)
      -- where the pop arrives: the stack of the parts without its top is the one at the start
      have hleave : leave c token mode K S D (c.declarationsIn S token) =
          leave c token mode K (name :: S).tail
            (D ++ found ++ (tokens.map (c.declarationsIn (name :: S))).flatMap (·.diagnostics))
            (utilityDeclarations token (" ".intercalate
              ([] ++ (tokens.map (c.declarationsIn (name :: S))).filterMap (·.css)))) := by
        simp [declarationsIn_parts h ho, leave, assemble, joinParts, Compiled.after]
      rw [hleave]
      exact (Steps.one (.push h ho)).trans (hparts.trans (.one .pop))

/-- A token compiles to what the machine makes of it. -/
theorem steps_final (c : Compiler) (token : String) (mode : EmitMode) (found : List Diagnostic) :
    c.Steps (start token mode found)
      (final (c.compile token mode).css (found ++ (c.compile token mode).diagnostics)) := by
  rw [compile_css, compile_diagnostics]
  exact steps_leave [] token mode [] found

/-! ### The stack -/

/-- The names on the stack are those of the utilities being expanded, registered and distinct. -/
structure Balanced (c : Compiler) (s : State) : Prop where
  opened_eq  : s.opened = s.frames.map fun f => Token.lastName f.token
  nodup      : s.opened.Nodup
  registered : s.opened ⊆ c.registry.names

theorem balanced_start : c.Balanced (start token mode found) :=
  ⟨rfl, List.nodup_nil, List.nil_subset _⟩

theorem Step.balanced (h : c.Step s s') (hs : c.Balanced s) : c.Balanced s' := by
  obtain ⟨he, hn, hr⟩ := hs
  cases h with
  | settle _ | cut _ _ | part | take => exact ⟨he, hn, hr⟩
  | push h ho =>
      refine ⟨?_, List.nodup_cons.2 ⟨ho, hn⟩, List.cons_subset.2 ⟨mem_names_of_request h, hr⟩⟩
      exact congrArg₂ List.cons (name_eq_of_request h) he
  | pop =>
      refine ⟨?_, hn.tail, fun n hmem => hr (List.mem_of_mem_tail hmem)⟩
      exact congrArg List.tail he

theorem Steps.balanced (h : c.Steps s s') (hs : c.Balanced s) : c.Balanced s' := by
  induction h with
  | refl => exact hs
  | tail _ h ih => exact h.balanced ih

/-- The stack is never higher than the registry is long. -/
theorem Balanced.length_le (hs : c.Balanced s) : s.opened.length ≤ c.registry.size := by
  have h := (hs.nodup.subperm hs.registered).length_le
  simpa [Registry.names, Registry.size, OrderedMap.keys, OrderedMap.size] using h

/-! ### The diagnostics -/

theorem Step.found_prefix (h : c.Step s s') : s.found <+: s'.found := by
  cases h with
  | settle _ | cut _ _ | push _ _ | pop => exact List.prefix_append _ _
  | part | take => exact List.prefix_refl _

/-- A run only appends to what was found. -/
theorem Steps.found_prefix (h : c.Steps s s') : s.found <+: s'.found := by
  induction h with
  | refl => exact List.prefix_refl _
  | tail _ h ih => exact ih.trans h.found_prefix

/-! ### Every run ends -/

/-- No two steps lead out of one state. -/
theorem Step.det (h : c.Step s s') (h' : c.Step s t) : s' = t := by
  cases h with
  | settle h =>
      cases h' with
      | settle h' => rw [h] at h'; cases h'; rfl
      | cut h' _ | push h' _ => rw [h] at h'; cases h'
  | cut h ho =>
      cases h' with
      | settle h' => rw [h] at h'; cases h'
      | cut h' _ => rw [h] at h'; cases h'; rfl
      | push h' ho' => rw [h] at h'; cases h'; exact absurd ho ho'
  | push h ho =>
      cases h' with
      | settle h' => rw [h] at h'; cases h'
      | cut h' ho' => rw [h] at h'; cases h'; exact absurd ho' ho
      | push h' _ => rw [h] at h'; cases h'; rfl
  | part => cases h'; rfl
  | pop => cases h'; rfl
  | take => cases h'; rfl

theorem not_step_final {css : Option String} : ¬ c.Step (final css found) s := nofun

/-- A state from which some run gets stuck has no infinite run. -/
theorem acc_of_steps (h : c.Steps s t) (ht : ∀ u, ¬ c.Step t u) : Acc (fun b a => c.Step a b) s := by
  induction h using Relation.ReflTransGen.head_induction_on with
  | refl => exact ⟨_, fun u hu => absurd hu (ht u)⟩
  | head h _ ih =>
      -- every step out of here is the one that the run takes
      exact ⟨_, fun u hu => h.det hu ▸ ih⟩

/-- **Expansion terminates with its stack in order.**  Whatever the registry, no run from a token is
infinite, and the run ends with the result of compiling the token.  At every moment the stack holds
distinct registered names, so it is never higher than the registry is long.  A token met on the way
returns to the callers it was entered from, with a text or without one; and whenever these callers
are the innermost ones again, the stack is the one it was entered with. -/
theorem expansion_terminates (c : Compiler) (token : String) (mode : EmitMode)
    (found : List Diagnostic) :
    Acc (fun s' s => c.Step s s') (start token mode found) ∧
    c.Steps (start token mode found)
      (final (c.compile token mode).css (found ++ (c.compile token mode).diagnostics)) ∧
    ∀ s, c.Steps (start token mode found) s →
      s.opened.Nodup ∧ s.opened ⊆ c.registry.names ∧ s.opened.length ≤ c.registry.size ∧
      ∀ part m, s.control = .enter part m →
        (∃ css ds, c.Steps s ⟨.leave css, s.frames, s.opened, s.found ++ ds⟩) ∧
        ∀ s', c.Steps s s' → s'.frames = s.frames → s'.opened = s.opened := by
  have hfinal := steps_final c token mode found
  refine ⟨acc_of_steps hfinal fun _ => not_step_final, hfinal, fun s hs => ?_⟩
  have hb : c.Balanced s := hs.balanced balanced_start
  refine ⟨hb.nodup, hb.registered, hb.length_le, ?_⟩
  rintro part m hpart
  obtain ⟨_, K, S, D⟩ := s
  cases hpart
  refine ⟨⟨_, _, steps_leave S part m K D⟩, fun s' hs' hK => ?_⟩
  have hb' := hs'.balanced hb
  -- balanced stacks over the same callers are the same
  rw [hb'.opened_eq, hb.opened_eq, hK]

/-- Two utilities that lead to each other, behind modifiers and a `!`. -/
def entangled : Compiler :=
  default.register [("card", .compose "hover:!panel block"), ("panel", .compose "md:card flex")] .all

/-- The state of `entangled` in which `card` is met a second time. -/
def entangledTwice : State :=
  ⟨.enter "md:card" .declarations,
    [⟨"hover:!panel", .declarations, ["flex"], []⟩, ⟨"card", .rule, ["block"], []⟩],
    ["panel", "card"], []⟩

theorem steps_entangledTwice : entangled.Steps (start "card" .rule []) entangledTwice := by
  have hcard : entangled.request "card" = .parts "card" ["hover:!panel", "block"] [] := rfl
  have hpanel : entangled.request "hover:!panel" = .parts "panel" ["md:card", "flex"] [] := rfl
  exact (Steps.one (.push hcard (by decide))).trans <| (Steps.one .part).trans <|
    (Steps.one (.push hpanel (by decide))).trans (.one .part)

theorem expansion_terminates_entangled :
    entangledTwice.opened.Nodup ∧ entangledTwice.opened.length ≤ entangled.registry.size ∧
    ∃ css ds, entangled.Steps entangledTwice
      ⟨.leave css, entangledTwice.frames, ["panel", "card"], ds⟩ := by
  obtain ⟨-, -, h⟩ := expansion_terminates entangled "card" .rule []
  obtain ⟨hn, -, hl, hc⟩ := h entangledTwice steps_entangledTwice
  obtain ⟨⟨css, ds, hr⟩, -⟩ := hc "md:card" .declarations rfl
  exact ⟨hn, hl, css, _, hr⟩

end Compiler

end UtilityCss
