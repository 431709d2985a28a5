import UtilityCss.Proofs.Build.DryRun
import UtilityCss.Proofs.Expansion.Cycle

/-!
# Reports of breakpoints

A breakpoint whose value denotes no width is reported once, in the order of the entries
(`BreakpointTable.forall₂_reports`). No other message begins as these reports do: not those of tokens
(`Compiler.isTokenMessage_of_mem`) and not those of a delivery (`Delivery.message_of_mem`). So what a
build with a result has to say begins with the reports of its configuration, and holds no others
(`Builder.reports_of_run`).
-/

namespace UtilityCss

variable {d : Diagnostic} {s : Session}

/-! ### Breakpoints -/

namespace BreakpointTable

/-- How the report of a breakpoint begins. -/
def reportHead : String := "Invalid breakpoint value "

/-- A diagnostic is a warning that names a breakpoint and shows its value. -/
structure Reports (entry : String × BreakpointValue) (d : Diagnostic) : Prop where
  severity : d.severity = .warning
  token    : d.token = entry.1
  message  : ∃ consequence, d.message = reportHead ++ entry.2.display ++ ", " ++ consequence

/-- The breakpoints that are left out of a table. -/
def rejected (overrides : List (String × BreakpointValue)) : List (String × BreakpointValue) :=
  overrides.filter (·.2.toPixels?.isNone)

/-- The breakpoints that are left out are reported in order, each once. -/
theorem forall₂_reports (t : BreakpointTable) (overrides : List (String × BreakpointValue)) :
    List.Forall₂ Reports (rejected overrides) (t.overrideAll overrides).2 := by
  induction overrides generalizing t with
  | nil => exact .nil
  | cons entry overrides ih =>
      obtain ⟨name, value⟩ := entry
      rw [overrideAll, override]
      cases hwidth : value.toPixels? with
      | some width =>
          have hrejected : rejected ((name, value) :: overrides) = rejected overrides :=
            List.filter_cons_of_neg (by simp [hwidth])
          rw [hrejected]
          exact ih _
      | none =>
          have hrejected : rejected ((name, value) :: overrides) =
              (name, value) :: rejected overrides := List.filter_cons_of_pos (by simp [hwidth])
          rw [hrejected]
          exact .cons ⟨rfl, rfl, _, rfl⟩ (ih t)

end BreakpointTable

open BreakpointTable (Reports rejected reportHead)

/-- A diagnostic begins as the report of a breakpoint. -/
def Diagnostic.IsReport (d : Diagnostic) : Prop := reportHead.toList <+: d.message.toList

theorem BreakpointTable.Reports.isReport {entry : String × BreakpointValue} (h : Reports entry d) :
    d.IsReport := by
  obtain ⟨consequence, hmessage⟩ := h.message
  rw [Diagnostic.IsReport, hmessage, String.toList_append, String.toList_append, String.toList_append,
    List.append_assoc, List.append_assoc]
  exact List.prefix_append _ _

/-! ### Tokens -/

namespace Compiler

variable {c : Compiler} {token : String}

/-- A message that a token can leave. -/
inductive IsTokenMessage : String → Prop
  | refusal {m : String} (h : m ∈ refusals) : IsTokenMessage m
  | misplaced (segment : String) :
      IsTokenMessage ("Media prefix \"" ++ segment ++ "\" must appear only as the first segment")
  | cycle (name : String) : IsTokenMessage (cycleMessage name)

theorem isTokenMessage_of_mem_parse {t : BreakpointTable} (h : d ∈ (Token.parse t token).2) :
    IsTokenMessage d.message := by
  obtain ⟨segment, -, rfl⟩ := List.mem_map.1 h
  exact .misplaced segment

theorem isTokenMessage_of_mem_declarationsIn (opened : List String) (token : String) :
    ∀ d ∈ (c.declarationsIn opened token).diagnostics, IsTokenMessage d.message := by
  induction opened, token using expansion_induction (c := c) with
  | settled opened token r h =>
      intro d hd
      rw [declarationsIn_settled h] at hd
      cases settles_of_request h with
      | text _ => exact isTokenMessage_of_mem_parse hd
      | refused hr =>
          rcases List.mem_append.1 hd with hd | hd
          · exact isTokenMessage_of_mem_parse hd
          · rw [List.mem_singleton.1 hd]
            exact .refusal hr
  | cut opened token n tokens found h ho =>
      intro d hd
      rw [declarationsIn_cut h ho] at hd
      obtain ⟨-, -, -, -, -, -, -, rfl⟩ := compose_of_request h
      rcases List.mem_append.1 hd with hd | hd
      · exact isTokenMessage_of_mem_parse hd
      · rw [List.mem_singleton.1 hd]
        exact .cycle n
  | parts opened token n tokens found h ho ih =>
      intro d hd
      rw [declarationsIn_parts h ho] at hd
      obtain ⟨-, -, -, -, -, -, -, rfl⟩ := compose_of_request h
      rcases mem_diagnostics_assemble hd with hd | ⟨q, hq, hd⟩ | rfl
      · exact isTokenMessage_of_mem_parse hd
      · obtain ⟨part, hp, rfl⟩ := List.mem_map.1 hq
        exact ih part hp d hd
      · exact .refusal noDeclarations_mem_refusals

theorem isTokenMessage_of_mem (i : ClassIndex) (h : d ∈ (Sheet.ofIndex c i).diagnostics) :
    IsTokenMessage d.message := by
  obtain ⟨r, hr, hd⟩ := List.mem_flatMap.1 h
  obtain ⟨token, -, rfl⟩ := List.mem_map.1 hr
  rw [compile_diagnostics] at hd
  exact isTokenMessage_of_mem_declarationsIn [] token d hd

theorem IsTokenMessage.not_isReport (h : IsTokenMessage d.message) : ¬ d.IsReport := by
  intro hreport
  have hfirst : d.message.toList.head? = some 'I' := by
    obtain ⟨rest, hrest⟩ := hreport
    rw [← hrest]
    rfl
  generalize hm : d.message = m at h
  rw [Diagnostic.IsReport, hm] at hreport
  rw [hm] at hfirst
  cases h with
  | refusal h =>
      have hhead : ∀ m ∈ refusals, ¬ reportHead.toList <+: m.toList := by decide
      exact hhead m h hreport
  | misplaced segment =>
      rw [String.toList_append, String.toList_append] at hfirst
      cases hfirst
  | cycle name =>
      rw [toList_cycleMessage] at hfirst
      cases hfirst

end Compiler

/-! ### Deliveries -/

namespace Delivery

variable {mode : InjectMode} {css : String} {output target : Path} {targets : List Path}
  {delivery : Delivery}

/-- The message about a target that is no file. -/
def missingTarget : String := "Target HTML file not found"

theorem message_of_mem_toTarget (h : ((toTarget mode css output target).run s).1 = .ok delivery)
    (hd : d ∈ delivery.diagnostics) : d.message = missingTarget := by
  by_cases hf : s.tree.isFile target
  · have hnone : delivery.diagnostics = [] := by
      rw [run_toTarget_of_isFile hf] at h
      split at h
      · cases h
      · dsimp only at h
        split at h
        · cases h
          rfl
        · split at h
          · cases h
          · cases h
            rfl
    rw [hnone] at hd
    cases hd
  · rw [run_toTarget_of_not_isFile (Bool.eq_false_iff.2 hf)] at h
    cases h
    rw [List.mem_singleton.1 hd]
    rfl

theorem message_of_mem_toTargets (h : ((toTargets mode css output targets).run s).1 = .ok delivery)
    (hd : d ∈ delivery.diagnostics) : d.message = missingTarget := by
  induction targets generalizing s delivery with
  | nil =>
      cases h
      cases hd
  | cons target targets ih =>
      rw [run_toTargets_cons] at h
      rcases hrun : (toTarget mode css output target).run s with ⟨_ | first, s₁⟩
      · rw [hrun] at h
        cases h
      · rw [hrun] at h
        simp only at h
        rcases hlater : ((toTargets mode css output targets).run s₁).1 with _ | later
        · rw [hlater] at h
          cases h
        · rw [hlater] at h
          cases h
          rcases List.mem_append.1 hd with hd | hd
          · exact message_of_mem_toTarget (congrArg Prod.fst hrun) hd
          · exact ih hlater hd

theorem message_of_mem (h : ((deliver mode css output targets).run s).1 = .ok delivery)
    (hd : d ∈ delivery.diagnostics) : d.message = missingTarget := by
  rw [run_deliver] at h
  rcases hrun : (prepare mode css output).run s with ⟨_ | _, s₁⟩
  · rw [hrun] at h
    cases h
  · rw [hrun] at h
    simp only at h
    rcases htargets : ((toTargets mode css output targets).run s₁).1 with _ | later
    · rw [htargets] at h
      cases h
    · rw [htargets] at h
      cases h
      exact message_of_mem_toTargets htargets hd

end Delivery

/-! ### Builds -/

namespace Build

variable {options : BuildOptions} {config : Config} {path : Path} {built r : BuildResult}

/-- A message that a delivery, or a build that finds no file, can leave. -/
def lateMessages : List String :=
  [Delivery.missingTarget, "No inject targets found", "No matching files found"]

theorem not_isReport_of_mem_lateMessages (h : d.message ∈ lateMessages) : ¬ d.IsReport := by
  have hhead : ∀ m ∈ lateMessages, ¬ reportHead.toList <+: m.toList := by decide
  exact hhead d.message h

theorem message_of_mem_deliver {base : Path} {css : String} {delivery : Delivery}
    (h : ((deliver options config base css).run s).1 = .ok delivery) (hd : d ∈ delivery.diagnostics) :
    d.message ∈ lateMessages := by
  unfold deliver at h
  simp only at h
  rw [run_bind_pure] at h
  rcases hrun : ((Delivery.deliver config.inject.mode css _ _).run s).1 with _ | inner <;> rw [hrun] at h
  · cases h
  · cases h
    rcases List.mem_append.1 hd with hd | hd
    · split at hd
      · rw [List.mem_singleton.1 hd]
        exact List.mem_cons_of_mem _ List.mem_cons_self
      · cases hd
    · rw [Delivery.message_of_mem hrun hd]
      exact List.mem_cons_self

/-- What is delivered adds no report. -/
theorem exists_of_run_conclude_not_isReport
    (h : ((conclude options config path built).run s).1 = .ok r) :
    ∃ later, r.diagnostics = built.diagnostics ++ later ∧ ∀ d ∈ later, ¬ d.IsReport := by
  by_cases hdry : options.dryRun
  · rw [run_conclude_of_dry hdry] at h
    cases h
    exact ⟨[], (List.append_nil _).symm, List.forall_mem_nil _⟩
  · rw [conclude, if_neg hdry] at h
    change ((deliver options config (baseDirectory options path) built.css >>= _).run s).1 = _ at h
    rw [run_bind] at h
    rcases hrun : (deliver options config (baseDirectory options path) built.css).run s with
      ⟨e | delivery, s'⟩
    · rw [hrun] at h
      cases h
    · rw [hrun] at h
      cases h
      exact ⟨delivery.diagnostics, rfl, fun d hd =>
        not_isReport_of_mem_lateMessages (message_of_mem_deliver (congrArg Prod.fst hrun) hd)⟩

end Build

namespace Builder

variable {b : Builder} {config : Config} {path : Path} {r : BuildResult}

/-- A configured compiler reports the breakpoints that are left out. -/
theorem forall₂_configured (b : Builder) (config : Config) :
    List.Forall₂ Reports (rejected config.breakpoints.entries) (b.configured config).2 :=
  BreakpointTable.forall₂_reports .default config.breakpoints.entries

/-- A build with a result reports the breakpoints that are left out, each once and in order, before it
says anything else. -/
theorem reports_of_run (h : b.loadConfig s.tree = .ok (config, path)) (hr : (b.run s).1 = .ok r) :
    ∃ reports rest, r.diagnostics = reports ++ rest ∧
      List.Forall₂ Reports (rejected config.breakpoints.entries) reports ∧
      ∀ d ∈ rest, ¬ d.IsReport := by
  cases b.course s.tree with
  | unloaded hload => cases hload.symm.trans h
  | unmatched hload hfiles => cases (failsUnchanged_of_unmatched hload hfiles).1.symm.trans hr
  | unread hload hfiles hne hread =>
      cases (failsUnchanged_of_unread hload hfiles hne hread).1.symm.trans hr
  | nothing hload hfiles =>
      cases hload.symm.trans h
      cases (run_of_nothing hload hfiles).1.symm.trans hr
      refine ⟨_, _, rfl, b.forall₂_configured config, List.forall_mem_singleton.2 ?_⟩
      exact Build.not_isReport_of_mem_lateMessages
        (List.mem_cons_of_mem _ (List.mem_cons_of_mem _ List.mem_cons_self))
  | @read _ _ files documents hload hfiles hne hread =>
      cases hload.symm.trans h
      obtain ⟨later, hlater, hnone⟩ := Build.exists_of_run_conclude_not_isReport
        ((run_of_documents hload hfiles hne hread).1.symm.trans hr)
      refine ⟨_, _, hlater.trans (List.append_assoc _ _ _), b.forall₂_configured config, fun d hd => ?_⟩
      rcases List.mem_append.1 hd with hd | hd
      · exact (Compiler.isTokenMessage_of_mem _ hd).not_isReport
      · exact hnone d hd

end Builder

end UtilityCss
