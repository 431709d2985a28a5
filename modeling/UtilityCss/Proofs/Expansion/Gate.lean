import UtilityCss.Compiler.Configuration
import UtilityCss.Proofs.Expansion.Outcome
import UtilityCss.Proofs.Json.Decoded
import UtilityCss.Proofs.Token.Modifier
import UtilityCss.Proofs.Utility.Variants

/-!
# The gate of a utility

A utility that lists declarations has them as its text behind any modifiers that it may be combined with,
and nothing but a refusal behind others (`Compiler.compile_of_declarations`). What it may be combined with
is asked of the media request and the pseudo-class that reading finds, so segments that reading passes over
take no part in it (`Compiler.gate_is_exact`).
-/

namespace UtilityCss.Compiler
open Json

variable {c : Compiler} {token name : String} {values : OrderedMap String String} {variants : Variants}

/-- A token that names a utility with declarations has their text, or it is refused. -/
theorem compile_of_declarations (hvalues : values.entries ≠ [])
    (hu : c.registry.get? (Token.lastName token) = some ⟨.declarations values, variants⟩)
    (mode : EmitMode) :
    c.compile token mode =
      if (Utility.mk (.declarations values) variants).admits (Token.parse c.breakpoints token).1 then
        ⟨some (c.emit token mode (rowText values.entries)), (Token.parse c.breakpoints token).2⟩
      else ⟨none, (Token.parse c.breakpoints token).2 ++ [.warning "Variant not allowed" token]⟩ := by
  have htext : utilityDeclarations token (rowText values.entries) = ⟨some (rowText values.entries), []⟩ :=
    utilityDeclarations_of_ne (terminated_declarations values.entries hvalues).ne_empty
  by_cases ha : (Utility.mk (.declarations values) variants).admits (Token.parse c.breakpoints token).1
  · have hexpansion : c.declarationsIn [] token = _ :=
      declarationsIn_settled (request_of_declarations hu rfl ha)
    rw [htext, Compiled.after, List.append_nil] at hexpansion
    rw [if_pos ha, compile_eq, hexpansion]
    rfl
  · have hexpansion : c.declarationsIn [] token = _ :=
      declarationsIn_settled (request_of_not_admits hu ha)
    rw [if_neg ha, compile_eq, hexpansion]
    rfl

theorem isSome_compile_of_declarations (hvalues : values.entries ≠ [])
    (hu : c.registry.get? (Token.lastName token) = some ⟨.declarations values, variants⟩)
    (mode : EmitMode) : (c.compile token mode).css.isSome =
      (Utility.mk (.declarations values) variants).admits (Token.parse c.breakpoints token).1 := by
  rw [compile_of_declarations hvalues hu]
  split
  · rename_i hadmitted
    exact hadmitted.symm
  · rename_i hrefused
    exact (Bool.eq_false_iff.2 hrefused).symm

/-- A text holds names: a list of them, or the only one alone. -/
def HoldsNames (text : String) (names : List String) : Prop :=
  Reader.all Reader.value text = .ok (.array (names.map .string)) ∨
    ∃ n, names = [n] ∧ Reader.all Reader.value text = .ok (.string n)

/-- Names that a text holds are read as the variants that they list. -/
theorem all_reader_of_holdsNames {text : String} {names : List String} (h : HoldsNames text names) :
    Reader.all Variants.reader text = .ok (.ofNames names) := by
  rcases h with h | ⟨n, rfl, h⟩
  · exact (all_eq_ok_iff decodes_form h).2 (Variants.ofJson?_strings names)
  · exact (all_eq_ok_iff decodes_form h).2 rfl

/-- **The gate is exact.**  A name that stands for declarations and lists its variants compiles behind
modifiers, with a mark or without and in either mode, exactly if reading finds neither a breakpoint nor a
pseudo-class, or the list has `*`, the breakpoint or the pseudo-class. If it does not, the refusal comes
behind what was found in reading, and is the only warning. Segments that are neither have no part in it:
behind these alone the name compiles, and one of them among others may be left out. And the variants of a
text with the same names, in a list or alone, are the same. -/
theorem gate_is_exact (c : Compiler) {name : String} (hname : Token.IsBase name)
    {values : OrderedMap String String} (hvalues : values.entries ≠ []) {names : List String}
    (hu : c.registry.get? name = some ⟨.declarations values, .ofNames names⟩) {segments : List String}
    (hsegments : ∀ s ∈ segments, ':' ∉ s.toList) (important : Bool) (mode : EmitMode) :
    let token := Token.modified segments important name
    let t := (Token.parse c.breakpoints token).1
    let found := (Token.parse c.breakpoints token).2
    let r := c.compile token mode
    (r.css.isSome ↔ (t.media = none ∧ t.pseudo = none) ∨ "*" ∈ names ∨
      (∃ m ∈ t.media, m.name ∈ names) ∨ ∃ p ∈ t.pseudo, p.name ∈ names) ∧
    (r.css = none → r.diagnostics = found ++ [.warning "Variant not allowed" token] ∧
      ∀ d ∈ found, d.isWarning = false) ∧
    (segments.head?.bind (Token.media? c.breakpoints) = none →
      (∀ s ∈ segments, Pseudo.ofName? s = none) → r.css.isSome) ∧
    (∀ l s l', segments = l ++ s :: l' → Token.Passed c.breakpoints l s l' →
      (c.compile (Token.modified (l ++ l') important name) mode).css.isSome = r.css.isSome) ∧
    ∀ text, HoldsNames text names → Reader.all Variants.reader text = .ok (.ofNames names) := by
  intro token t found r
  have hat : ∀ l, (∀ s ∈ l, ':' ∉ s.toList) →
      c.registry.get? (Token.lastName (Token.modified l important name)) =
        some ⟨.declarations values, .ofNames names⟩ := by
    intro l hl
    rw [Token.lastName_modified hl hname, hu]
  have hverdict := isSome_compile_of_declarations hvalues (hat segments hsegments) mode
  have hexact := Bool.eq_iff_iff.1 hverdict
  rw [Utility.admits_iff] at hexact
  refine ⟨hexact, fun hnone => ⟨?_, fun d hd => isWarning_of_mem_parse hd⟩, fun hfirst hpseudos => ?_, ?_,
    fun text htext => all_reader_of_holdsNames htext⟩
  · have hrefused : ¬ (Utility.mk (.declarations values) (.ofNames names)).admits t := by
      rw [← hverdict, hnone]
      exact Bool.false_ne_true
    exact congrArg Compiled.diagnostics
      ((compile_of_declarations hvalues (hat segments hsegments) mode).trans (if_neg hrefused))
  · -- nothing is found, so nothing is asked for
    refine hexact.2 (.inl ?_)
    have hpseudo : Token.lastPseudo? segments = none := by
      rw [Token.lastPseudo?, List.filterMap_eq_nil_iff.2 hpseudos, List.getLast?_nil]
    rw [Token.parse_modified hsegments hname hfirst]
    exact ⟨rfl, hpseudo⟩
  · rintro l s l' rfl hpassed
    rw [isSome_compile_of_declarations hvalues (hat _ (Token.colon_not_mem_others hsegments)), hverdict,
      Token.parse_passed hpassed hsegments hname]

/-- A utility that may be combined with a breakpoint of the configuration and with a pseudo-class. -/
def guarded : Compiler :=
  { default with breakpoints := BreakpointTable.default.insert "tablet" 900 }.register
    [("chip", .declarations (.ofList [("color", "red"), ("margin", "0")]))] (.ofNames ["tablet", "hover"])

/-- The breakpoint passes though `focus`, the last pseudo-class, is not listed; without it the token is
refused, since neither `lg` nor `focus` is listed and `hover` and `tablet` are not what reading finds. -/
theorem gate_is_exact_guarded :
    (guarded.compile (Token.modified ["max-tablet", "print", "focus"] true "chip") .rule).css.isSome ∧
    (guarded.compile "lg:hover:tablet:focus:chip" .declarations).diagnostics =
      [.info (Token.misplacedMessage "tablet") "lg:hover:tablet:focus:chip",
        .warning "Variant not allowed" "lg:hover:tablet:focus:chip"] ∧
    Reader.all Variants.reader "[\"tablet\", \"hover\"]" = .ok (.ofNames ["tablet", "hover"]) := by
  have hname : Token.IsBase "chip" := ⟨by decide, by decide⟩
  have hvalues : (OrderedMap.ofList [("color", "red"), ("margin", "0")]).entries ≠ [] := by decide
  have hu : guarded.registry.get? "chip" = some ⟨.declarations (.ofList [("color", "red"), ("margin", "0")]),
      .ofNames ["tablet", "hover"]⟩ := by decide +kernel
  have hheld : HoldsNames "[\"tablet\", \"hover\"]" ["tablet", "hover"] := .inl (by decide +kernel)
  have hadmitted : ∀ s ∈ ["max-tablet", "print", "focus"], ':' ∉ s.toList := by decide
  have hunlisted : ∀ s ∈ ["lg", "hover", "tablet", "focus"], ':' ∉ s.toList := by decide
  obtain ⟨hexact, -, -, -, hread⟩ := gate_is_exact guarded hname hvalues hu hadmitted true .rule
  obtain ⟨-, hrefused, -⟩ := gate_is_exact guarded hname hvalues hu hunlisted false .declarations
  have htext : Token.modified ["lg", "hover", "tablet", "focus"] false "chip" =
      "lg:hover:tablet:focus:chip" := by decide +kernel
  refine ⟨hexact.2 (.inr (.inr (.inl ⟨⟨"tablet", true⟩, by decide +kernel, by decide⟩))), ?_,
    hread _ hheld⟩
  rw [← htext]
  exact (hrefused (by decide +kernel)).1.trans (by decide +kernel)

end UtilityCss.Compiler
