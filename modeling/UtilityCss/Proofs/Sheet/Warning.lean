import UtilityCss.Proofs.Expansion.Mode
import UtilityCss.Proofs.Expansion.Outcome
import UtilityCss.Sheet

/-!
# No token is lost silently

A token without a text leaves a warning that names it behind everything else it leaves; a text is
never empty; and a token that names a rule is compiled or warned about, never both
(`warning_of_compile_none`, `ne_empty_of_compile`, `not_warning_of_unregistered`). So the tokens of a
stylesheet that have no rule are at most as many as its warnings (`length_le_of_warned`).
-/

namespace UtilityCss

namespace Compiler
open State

variable {c : Compiler} {token css : String} {mode : EmitMode} {d : Diagnostic}

/-! ### One token -/

theorem warning_of_compile_none (h : (c.compile token mode).css = none) :
    ∃ ds m, (c.compile token mode).diagnostics = ds ++ [.warning m token] := by
  rw [compile_css, Option.map_eq_none_iff] at h
  rw [compile_diagnostics]
  exact (accounts [] token).warns h

theorem terminated_of_compile (h : (c.compile token .declarations).css = some css) :
    Terminated css :=
  (accounts [] token).terminated css h

theorem wrap_ne_empty (c : Compiler) (token css : String) : c.wrap token css ≠ "" := by
  simp only [wrap]
  split <;> simp

theorem ne_empty_of_compile (h : (c.compile token mode).css = some css) : css ≠ "" := by
  cases mode with
  | declarations => exact (terminated_of_compile h).ne_empty
  | rule =>
      rw [compile_css] at h
      obtain ⟨body, -, rfl⟩ := Option.map_eq_some_iff.1 h
      exact wrap_ne_empty c token body

/-- A token that names no utility and has a text leaves no warning. -/
theorem not_warning_of_unregistered (hn : Token.lastName token ∉ c.registry.names)
    (h : (c.compile token mode).css.isSome) (hd : d ∈ (c.compile token mode).diagnostics) :
    d.isWarning = false := by
  rw [compile_css, Option.isSome_map] at h
  rw [compile_diagnostics] at hd
  cases hr : c.request token with
  | parts name tokens found =>
      exact absurd (name_eq_of_request hr ▸ mem_names_of_request hr) hn
  | settled r =>
      rw [declarationsIn_settled hr] at h hd
      cases settles_of_request hr with
      | refused _ => cases h
      | text _ => exact isWarning_of_mem_parse hd

end Compiler

/-! ### A stylesheet -/

/-- Results of which each one without a text leaves a warning: those are at most the warnings. -/
theorem length_le_of_warned {rs : List Compiled}
    (h : ∀ r ∈ rs, r.css = none → ∃ d ∈ r.diagnostics, d.isWarning) :
    rs.length ≤ (rs.filterMap (·.css)).length +
      ((rs.flatMap (·.diagnostics)).filter (·.isWarning)).length := by
  induction rs with
  | nil => exact Nat.zero_le _
  | cons r rs ih =>
      have hrest := ih fun q hq => h q (List.mem_cons_of_mem r hq)
      rw [List.flatMap_cons, List.filter_append, List.length_append, List.length_cons]
      cases hr : r.css with
      | some css =>
          simp only [List.filterMap_cons, hr, List.length_cons]
          omega
      | none =>
          simp only [List.filterMap_cons, hr]
          obtain ⟨d, hd, hw⟩ := h r List.mem_cons_self hr
          have hpos : 0 < (r.diagnostics.filter (·.isWarning)).length :=
            List.length_pos_of_mem (List.mem_filter.2 ⟨hd, hw⟩)
          omega

namespace Sheet
open Compiler

theorem compiled_le_tokens (c : Compiler) (tokens : List String) :
    (ofTokens c tokens).compiled ≤ (ofTokens c tokens).tokens := by
  have h := List.length_filterMap_le (fun r : Compiled => r.css) (tokens.map (c.compile · .rule))
  simpa [ofTokens] using h

theorem tokens_le_compiled_add_warnings (c : Compiler) (tokens : List String) :
    (ofTokens c tokens).tokens ≤
      (ofTokens c tokens).compiled + (ofTokens c tokens).warnings.length := by
  have h : ∀ r ∈ tokens.map (c.compile · .rule), r.css = none →
      ∃ d ∈ r.diagnostics, d.isWarning := by
    intro r hr hnone
    obtain ⟨token, -, rfl⟩ := List.mem_map.1 hr
    obtain ⟨ds, m, hds⟩ := warning_of_compile_none hnone
    exact ⟨.warning m token, by simp [hds], rfl⟩
  have hle := length_le_of_warned h
  rwa [List.length_map] at hle

end Sheet

open State in
/-- **No token is lost silently.**  Compiling a token only appends to what was found before. Without
a text, the last diagnostic is a warning about the token; a text is not empty, and declarations end
with a semicolon; and a token that names no utility has a text or a warning, not both. So a
stylesheet has no more rules than tokens, and a warning for each token that has no rule. -/
theorem no_token_lost (c : Compiler) :
    (∀ token mode, let r := c.compile token mode
      (∀ found,
        c.Steps (start token mode found) (final r.css (found ++ r.diagnostics)) ∧
        ∀ s, c.Steps (start token mode found) s → found <+: s.found) ∧
      (r.css = none → ∃ ds m, r.diagnostics = ds ++ [.warning m token]) ∧
      (∀ css, r.css = some css → css ≠ "" ∧ (mode = .declarations → ∃ s, css = s ++ ";")) ∧
      (Token.lastName token ∉ c.registry.names → r.css.isSome →
        ∀ d ∈ r.diagnostics, d.isWarning = false)) ∧
    ∀ documents, let s := Sheet.ofDocuments c documents
      s.compiled ≤ s.tokens ∧ s.tokens - s.compiled ≤ s.warnings.length := by
  refine ⟨fun token mode => ⟨fun found => ⟨?_, fun s hs => hs.found_prefix⟩,
    Compiler.warning_of_compile_none, fun css hcss => ⟨?_, ?_⟩, ?_⟩, fun documents => ⟨?_, ?_⟩⟩
  · exact Compiler.steps_final c token mode found
  · exact Compiler.ne_empty_of_compile hcss
  · rintro rfl
    exact Compiler.terminated_of_compile hcss
  · exact fun hn hsome d hd => Compiler.not_warning_of_unregistered hn hsome hd
  · exact Sheet.compiled_le_tokens c _
  · have h := Sheet.tokens_le_compiled_add_warnings c
      (ClassIndex.ofDocuments c (Sheet.numbered documents)).tokens
    exact Nat.sub_le_iff_le_add'.2 h

theorem no_token_lost_default :
    (∃ ds m, (Compiler.default.compile "md:p-[x]" .rule).diagnostics =
      ds ++ [.warning m "md:p-[x]"]) ∧
    (∃ s, "padding: 4px !important;" = s ++ ";") ∧
    (∀ d ∈ (Compiler.default.compile "hover:md:!p-[4px]" .declarations).diagnostics,
      d.isWarning = false) ∧
    1 ≤ (Sheet.ofDocuments .default ["<p class='flex foo-[1px]'>"]).warnings.length := by
  obtain ⟨htoken, hsheet⟩ := no_token_lost .default
  obtain ⟨-, hnone, -, -⟩ := htoken "md:p-[x]" .rule
  obtain ⟨-, -, hsome, hrule⟩ := htoken "hover:md:!p-[4px]" .declarations
  obtain ⟨-, hwarnings⟩ := hsheet ["<p class='flex foo-[1px]'>"]
  have htext : (Compiler.default.compile "hover:md:!p-[4px]" .declarations).css =
      some "padding: 4px !important;" := by decide +kernel
  have hlost : (Sheet.ofDocuments .default ["<p class='flex foo-[1px]'>"]).tokens -
      (Sheet.ofDocuments .default ["<p class='flex foo-[1px]'>"]).compiled = 1 := by
    decide +kernel
  exact ⟨hnone (by decide +kernel), (hsome _ htext).2 rfl,
    hrule (by decide +kernel) (by rw [htext]; rfl), hlost ▸ hwarnings⟩

end UtilityCss
