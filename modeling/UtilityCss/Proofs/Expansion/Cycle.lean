import UtilityCss.Proofs.Expansion.Machine
import UtilityCss.Proofs.Expansion.Outcome

/-!
# The graph of composite utilities

A composite utility mentions the names in its parts, and composes those that are registered. The open
names of an expansion lie on a path of this graph that ends at the token (`Above`), so an expansion
is cut only where the graph has a cycle; where it has none, the open names have no influence at all,
and expansion is plain recursion over the parts.

`Unfolds` is that recursion. Nothing bounds it, so it is a relation: on a cycle it need not find any
result.
-/

namespace UtilityCss

/-- The class tokens that a utility takes its declarations from. -/
def Styles.parts : Styles → List String
  | .compose text   => Text.words text
  | .declarations _ => []

namespace Compiler

variable {c : Compiler} {token name u v : String} {tokens opened : List String}
  {found : List Diagnostic} {r : Compiled} {d : Diagnostic}

/-! ### The graph -/

/-- A part of the utility `u` has the name `v`. -/
def Mentions (c : Compiler) (u v : String) : Prop :=
  ∃ ut, c.registry.get? u = some ut ∧ ∃ part ∈ ut.styles.parts, Token.lastName part = v

/-- A part of the composite utility `u` has the registered name `v`. -/
def Composes (c : Compiler) (u v : String) : Prop := c.Mentions u v ∧ v ∈ c.registry.names

/-- One or more parts of parts lead from `u` to `v`. -/
def Leads (c : Compiler) : String → String → Prop := Relation.TransGen c.Composes

/-- No utility leads back to itself. -/
def Acyclic (c : Compiler) : Prop := ∀ n, ¬ c.Leads n n

/-- A graph whose edges all descend has no cycle. -/
theorem acyclic_of_rank (rank : String → Nat) (h : ∀ e ∈ c.registry.utilities.entries,
    ∀ part ∈ e.2.styles.parts, rank (Token.lastName part) < rank e.1) : c.Acyclic := by
  have hlt : ∀ u v, c.Composes u v → rank v < rank u := by
    rintro u v ⟨⟨ut, hu, part, hp, rfl⟩, -⟩
    exact h (u, ut) (OrderedMap.mem_entries_of_get? hu) part hp
  have hleads : ∀ u v, c.Leads u v → rank v < rank u := by
    intro u v huv
    induction huv with
    | single e => exact hlt _ _ e
    | tail _ e ih => exact Nat.lt_trans (hlt _ _ e) ih
  exact fun n hn => Nat.lt_irrefl _ (hleads n n hn)

theorem mentions_of_request (h : c.request token = .parts name tokens found) {part : String}
    (hp : part ∈ tokens) : c.Mentions name (Token.lastName part) := by
  obtain ⟨ut, text, hu, hs, _, rfl, rfl, _⟩ := compose_of_request h
  exact ⟨ut, hu, part, by rwa [hs], rfl⟩

/-! ### The open names -/

/-- Every open name leads to the name of the token, if that is registered. -/
def Above (c : Compiler) (opened : List String) (token : String) : Prop :=
  Token.lastName token ∈ c.registry.names → ∀ n ∈ opened, c.Leads n (Token.lastName token)

theorem above_nil (c : Compiler) (token : String) : c.Above [] token :=
  fun _ _ hn => absurd hn List.not_mem_nil

theorem Above.leads (h : c.Above opened token) (hr : c.request token = .parts name tokens found) :
    ∀ n ∈ opened, c.Leads n name := by
  have hn := name_eq_of_request hr
  exact hn ▸ h (hn ▸ mem_names_of_request hr)

/-- What is above a utility, and the utility itself, is above its parts. -/
theorem Above.part (h : c.Above opened token) (hr : c.request token = .parts name tokens found)
    {part : String} (hp : part ∈ tokens) : c.Above (name :: opened) part := by
  intro hreg n hn
  have hedge : c.Composes name (Token.lastName part) := ⟨mentions_of_request hr hp, hreg⟩
  rcases List.mem_cons.1 hn with rfl | hn
  · exact .single hedge
  · exact .tail (h.leads hr n hn) hedge

/-! ### A report of a cycle means a cycle -/

/-- How the report of a cycle begins. -/
def cycleHead : String := "Plugin utility \""

theorem toList_cycleMessage (name : String) :
    (cycleMessage name).toList = cycleHead.toList ++ (name ++ "\" composes itself").toList := by
  rw [← String.toList_append, ← String.append_assoc]
  rfl

theorem cycleMessage_injective : Function.Injective cycleMessage := by
  intro m n h
  have h' := congrArg String.toList h
  rw [toList_cycleMessage, toList_cycleMessage, String.toList_append, String.toList_append] at h'
  exact String.toList_inj.1 (List.append_cancel_right (List.append_cancel_left h'))

/-- No message with which a token is refused reports a cycle. -/
theorem ne_cycleMessage_of_mem_refusals {m : String} (h : m ∈ refusals) :
    m ≠ cycleMessage name := by
  rintro rfl
  have hhead : ∀ m ∈ refusals, m.toList.take cycleHead.toList.length ≠ cycleHead.toList := by
    decide
  exact hhead _ h (by rw [toList_cycleMessage]; exact List.take_left)

/-- Reading a token reports no cycle. -/
theorem ne_cycleMessage_of_mem_parse {t : BreakpointTable} (h : d ∈ (Token.parse t token).2) :
    d.message ≠ cycleMessage name := by
  obtain ⟨s, -, rfl⟩ := List.mem_map.1 h
  intro e
  have h' : ("Media prefix \"" ++ s ++ "\" must appear only as the first segment").toList.head? =
      (cycleMessage name).toList.head? := congrArg (·.toList.head?) e
  rw [toList_cycleMessage, String.toList_append, String.toList_append] at h'
  cases h'

/-- Where an expansion reports a cycle, there is one. -/
theorem leads_of_mem_declarationsIn (opened : List String) (token : String) :
    c.Above opened token → ∀ d ∈ (c.declarationsIn opened token).diagnostics, ∀ name,
      d.message = cycleMessage name → c.Leads name name := by
  induction opened, token using expansion_induction (c := c) with
  | settled opened token r h =>
      intro _ d hd name hm
      rw [declarationsIn_settled h] at hd
      cases settles_of_request h with
      | text _ => exact absurd hm (ne_cycleMessage_of_mem_parse hd)
      | refused hr =>
          rcases List.mem_append.1 hd with hd | hd
          · exact absurd hm (ne_cycleMessage_of_mem_parse hd)
          · rw [List.mem_singleton.1 hd] at hm
            exact absurd hm (ne_cycleMessage_of_mem_refusals hr)
  | cut opened token n tokens found h ho =>
      intro habove d hd name hm
      rw [declarationsIn_cut h ho] at hd
      obtain ⟨-, -, -, -, -, -, -, rfl⟩ := compose_of_request h
      rcases List.mem_append.1 hd with hd | hd
      · exact absurd hm (ne_cycleMessage_of_mem_parse hd)
      · rw [List.mem_singleton.1 hd] at hm
        -- the report names `n`, which is open, so above this token, whose name it is
        obtain rfl := cycleMessage_injective hm
        exact habove.leads h n ho
  | parts opened token n tokens found h ho ih =>
      intro habove d hd name hm
      rw [declarationsIn_parts h ho] at hd
      obtain ⟨-, -, -, -, -, -, -, rfl⟩ := compose_of_request h
      rcases mem_diagnostics_assemble hd with hd | ⟨q, hq, hd⟩ | rfl
      · exact absurd hm (ne_cycleMessage_of_mem_parse hd)
      · obtain ⟨part, hp, rfl⟩ := List.mem_map.1 hq
        exact ih part hp (habove.part h hp) d hd name hm
      · exact absurd hm (ne_cycleMessage_of_mem_refusals noDeclarations_mem_refusals)

/-! ### Plain recursion -/

/-- Plain recursion over parts: a result is found with no regard to what is open. -/
inductive Unfolds (c : Compiler) : String → Compiled → Prop where
  | settled {token : String} {r : Compiled} : c.request token = .settled r → Unfolds c token r
  | parts {token name : String} {tokens : List String} {found : List Diagnostic}
      {results : String → Compiled} : c.request token = .parts name tokens found →
      (∀ part ∈ tokens, Unfolds c part (results part)) →
      Unfolds c token (assemble token found (tokens.map results))

/-- A token unfolded and written in a mode. -/
def UnfoldsIn (c : Compiler) (token : String) (mode : EmitMode) (r : Compiled) : Prop :=
  ∃ p, c.Unfolds token p ∧ r = ⟨p.css.map (c.emit token mode), p.diagnostics⟩

/-- A token unfolds to one result at most. -/
theorem Unfolds.unique {r₁ r₂ : Compiled} (h₁ : c.Unfolds token r₁) (h₂ : c.Unfolds token r₂) :
    r₁ = r₂ := by
  induction h₁ generalizing r₂ with
  | settled h =>
      cases h₂ with
      | settled h' => exact Request.settled.inj (h.symm.trans h')
      | parts h' _ => cases h.symm.trans h'
  | parts h _ ih =>
      cases h₂ with
      | settled h' => cases h.symm.trans h'
      | parts h' hparts =>
          cases h.symm.trans h'
          exact congrArg _ (List.map_congr_left fun part hp => ih part hp (hparts part hp))

/-- Without cycles the open names have no influence. -/
theorem unfolds_declarationsIn (hc : c.Acyclic) (opened : List String) (token : String) :
    c.Above opened token → c.Unfolds token (c.declarationsIn opened token) := by
  induction opened, token using expansion_induction (c := c) with
  | settled opened token r h =>
      intro _
      rw [declarationsIn_settled h]
      exact .settled h
  | cut opened token name tokens found h ho =>
      intro habove
      -- an open name that is met again lies on a cycle
      exact absurd (habove.leads h name ho) (hc name)
  | parts opened token name tokens found h ho ih =>
      intro habove
      rw [declarationsIn_parts h ho]
      exact .parts h fun part hp => ih part hp (habove.part h hp)

theorem unfolds_iff (hc : c.Acyclic) : c.Unfolds token r ↔ r = c.declarationsIn [] token := by
  have h := unfolds_declarationsIn hc [] token (above_nil c token)
  constructor
  · intro hr
    exact hr.unique h
  · rintro rfl
    exact h

theorem unfoldsIn_iff (hc : c.Acyclic) (mode : EmitMode) :
    c.UnfoldsIn token mode r ↔ r = c.compile token mode := by
  have hcompile : c.compile token mode =
      ⟨(c.declarationsIn [] token).css.map (c.emit token mode),
        (c.declarationsIn [] token).diagnostics⟩ := by
    rw [← compile_css, ← compile_diagnostics]
  rw [hcompile]
  constructor
  · rintro ⟨p, hp, rfl⟩
    rw [(unfolds_iff hc).1 hp]
  · rintro rfl
    exact ⟨_, (unfolds_iff hc).2 rfl, rfl⟩

/-- Without cycles the parts of a utility are compiled as if they stood alone. -/
theorem declarationsIn_part (hc : c.Acyclic) (h : c.request token = .parts name tokens found)
    {part : String} (hp : part ∈ tokens) :
    c.declarationsIn [name] part = c.declarationsIn [] part := by
  exact (unfolds_iff hc).1 (unfolds_declarationsIn hc _ _ ((above_nil c token).part h hp))

/-- **Composition.**  Without cycles a utility has the texts of its parts that have one, in order. -/
theorem compile_parts (hc : c.Acyclic) (h : c.request token = .parts name tokens found) :
    let texts := tokens.filterMap fun part => (c.compile part .declarations).css
    let ds := found ++ tokens.flatMap fun part => (c.compile part .declarations).diagnostics
    c.compile token .declarations =
      if texts = [] then ⟨none, ds ++ [.warning noDeclarations token]⟩
      else ⟨some (" ".intercalate texts), ds⟩ := by
  intro css ds
  have hmap : tokens.map (c.declarationsIn [name]) = tokens.map (c.declarationsIn []) :=
    List.map_congr_left fun part hp => declarationsIn_part hc h hp
  have hcss : texts (tokens.map (c.declarationsIn [])) = css := List.filterMap_map
  have hds : found ++ (tokens.map (c.declarationsIn [])).flatMap (·.diagnostics) = ds :=
    congrArg (found ++ ·) (List.flatMap_map _ _ _)
  have hterm : ∀ t ∈ texts (tokens.map (c.declarationsIn [])), Terminated t := by
    intro t ht
    rw [hcss] at ht
    obtain ⟨part, -, hpart⟩ := List.mem_filterMap.1 ht
    exact (accounts [] part).terminated t hpart
  have he : c.compile token .declarations =
      assemble token found (tokens.map (c.declarationsIn [])) := by
    rw [← hmap]
    exact declarationsIn_parts h List.not_mem_nil
  rw [he]
  rcases assemble_cases token found hterm with ⟨hn, e⟩ | ⟨hn, e⟩
  · rw [e, if_pos (hcss ▸ hn), hds]
  · rw [e, if_neg (hcss ▸ hn), hds, hcss]

/-- **Cycles are cut, and nothing else.**  A utility is reported to compose itself only if parts of
parts lead from it back to itself. Without such a utility, compiling any token in any mode is plain
recursion; and the declarations of a utility that a token may use are those of its parts, one after
the other with spaces between. -/
theorem cycles_cut_exactly (c : Compiler) :
    (∀ token mode name, ∀ d ∈ (c.compile token mode).diagnostics,
      d.message = "Plugin utility \"" ++ name ++ "\" composes itself" → c.Leads name name) ∧
    (c.Acyclic → ∀ token,
      (∀ mode r, c.UnfoldsIn token mode r ↔ r = c.compile token mode) ∧
      ∀ u text, c.registry.get? (Token.lastName token) = some u → u.styles = .compose text →
        u.admits (Token.parse c.breakpoints token).1 →
        let texts := (Text.words text).filterMap fun part => (c.compile part .declarations).css
        (c.compile token .declarations).css =
          if texts = [] then none else some (" ".intercalate texts)) := by
  refine ⟨fun token mode name d hd hm => ?_, fun hc token =>
    ⟨fun mode _ => unfoldsIn_iff hc mode, ?_⟩⟩
  · rw [compile_diagnostics] at hd
    exact leads_of_mem_declarationsIn [] token (above_nil c token) d hd name hm
  · intro u text hu hs ha texts
    rw [compile_parts hc (request_of_compose hu hs ha)]
    by_cases hn : texts = []
    · rw [if_pos hn, if_pos hn]
    · rw [if_neg hn, if_neg hn]

/-- A utility reaches another one in two ways, and takes it over twice in one of them. -/
def diamond : Compiler :=
  default.register [("top", .compose "left hover:right p-[1px]"), ("left", .compose "base"),
    ("right", .compose "base !base"), ("base", .compose "block")] .all

theorem acyclic_diamond : diamond.Acyclic := by
  refine acyclic_of_rank
    (fun n => if n = "top" then 3 else if n = "base" then 1 else if n = "block" then 0 else 2) ?_
  decide +kernel

theorem cycles_cut_exactly_entangled_diamond :
    entangled.Leads "card" "card" ∧
    diamond.UnfoldsIn "md:top" .rule (diamond.compile "md:top" .rule) ∧
    (diamond.compile "md:top" .declarations).css =
      some "display: block; display: block; display: block; padding: 1px;" := by
  obtain ⟨hcycle, -⟩ := cycles_cut_exactly entangled
  obtain ⟨-, hplain⟩ := cycles_cut_exactly diamond
  obtain ⟨hmode, hparts⟩ := hplain acyclic_diamond "md:top"
  refine ⟨hcycle "card" .rule "card" (.warning (cycleMessage "card") "md:card") ?_ rfl,
    (hmode .rule _).2 rfl, ?_⟩
  · decide +kernel
  · rw [hparts ⟨.compose "left hover:right p-[1px]", .all⟩ _ (by decide +kernel) rfl
      (by decide +kernel)]
    decide +kernel

end Compiler

end UtilityCss
