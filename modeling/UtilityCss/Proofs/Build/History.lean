import UtilityCss.Build.Builder
import UtilityCss.Cli.Clock
import UtilityCss.Proofs.Build.Delivery
import UtilityCss.Proofs.Utility.History

/-!
# Builds without a past

A build depends on its options and on the session that it finds, not on the builds before it. For a
compiler this is so because configuring it replaces all that it holds: its utilities are the
registrations of the given plugins and nothing else (`names_reconfigure`, `get?_reconfigure`). For the
files it holds at any two times, up to the first lines of stylesheets (`alike_run`), since these are
quiet (`isQuiet_header`) and files are looked for before one is written.
-/

namespace UtilityCss

/-! ### What a configured compiler holds -/

namespace Compiler

variable {c : Compiler} {overrides : OrderedMap String BreakpointValue} {plugins : List Plugin}

theorem utilities_reconfigure : (c.reconfigure overrides plugins).1.registry.utilities =
    .ofList (registrations plugins) :=
  utilities_registerPlugins ∅ plugins

theorem names_reconfigure : (c.reconfigure overrides plugins).1.registry.names =
    ((registrations plugins).map Prod.fst).eraseDups := by
  rw [Registry.names, utilities_reconfigure, OrderedMap.keys_ofList]

theorem get?_reconfigure (name : String) : (c.reconfigure overrides plugins).1.registry.get? name =
    ((registrations plugins).reverse.find? fun u => u.1 = name).map Prod.snd := by
  rw [Registry.get?, utilities_reconfigure, OrderedMap.get?_ofList]

end Compiler

/-! ### The first line of a stylesheet -/

namespace Cli

open Markup

theorem isQuiet_toString (n : Nat) : IsQuiet (toString n).toList := by
  intro c hc
  rw [Nat.toString_eq_repr, Nat.repr_eq_ofList_toDigits, String.toList_ofList] at hc
  have hdigit := Nat.isDigit_of_mem_toDigits (by decide) (by decide) hc
  constructor <;> (rintro rfl; exact absurd hdigit (by decide))

theorem isQuiet_padded (width n : Nat) : IsQuiet (padded width n).toList := by
  refine isQuiet_append.2 ⟨fun c hc => ?_, isQuiet_toString n⟩
  rw [String.toList_ofList] at hc
  rw [List.eq_of_mem_replicate hc]
  decide

theorem isQuiet_wholeText (m : Moment) : IsQuiet m.wholeText.toList := by
  simp only [Moment.wholeText, isQuiet_append, isQuiet_padded, true_and, and_true]
  decide

theorem isQuiet_fractionText (m : Moment) : IsQuiet m.fractionText.toList := by
  have hpoint : IsQuiet ".".toList := by decide
  unfold Moment.fractionText
  simp only
  split
  · exact nofun
  split
  · exact isQuiet_append.2 ⟨hpoint, isQuiet_padded _ _⟩
  split
  · exact isQuiet_append.2 ⟨hpoint, isQuiet_padded _ _⟩
  · exact isQuiet_append.2 ⟨hpoint, isQuiet_padded _ _⟩

end Cli

theorem Cli.isQuiet_stamp (m : Cli.Moment) : Markup.IsQuiet m.stamp.toList := by
  have hzone : Markup.IsQuiet "+00:00".toList := by decide
  exact Markup.isQuiet_append.2
    ⟨Markup.isQuiet_append.2 ⟨isQuiet_wholeText m, isQuiet_fractionText m⟩, hzone⟩

/-- The first line of a stylesheet is quiet at any moment. -/
theorem Delivery.isQuiet_header (m : Cli.Moment) : Markup.IsQuiet (header m.stamp).toList := by
  have hbefore : Markup.IsQuiet "/* Generated by valcss v0.3.0 on ".toList := by decide +kernel
  have hbehind : Markup.IsQuiet " */\n".toList := by decide
  exact Markup.isQuiet_append.2
    ⟨Markup.isQuiet_append.2 ⟨hbefore, Cli.isQuiet_stamp m⟩, hbehind⟩

/-! ### Builds at two times -/

/-- Sessions at two times that differ in nothing else. -/
structure Session.Same (time time' : String) (s s' : Session) : Prop where
  tree   : s.tree = s'.tree
  report : s.report = s'.report
  time   : s.time = time
  time'  : s'.time = time'

theorem Session.Same.alike {time time' : String} {s s' : Session} (h : s.Same time time' s') :
    s.Alike time time' s' :=
  ⟨h.tree ▸ .refl s.tree, h.report, h.time, h.time'⟩

namespace Build

variable {time time' : String}

theorem lockstep_read {α : Type} (f : Tree → Except Failure α) :
    Lockstep (Session.Same time time') (Session.Same time time') Eq (Job.read f) (Job.read f) := by
  intro s s' h
  refine ⟨?_, h⟩
  show Together Eq (f s.tree) (f s'.tree)
  rw [h.tree]
  exact .refl _

theorem lockstep_say (level : Level) (text : String) : Lockstep (Session.Same time time')
    (Session.Same time time') Eq (Job.say level text) (Job.say level text) := by
  intro s s' h
  refine ⟨.ok rfl, h.tree, ?_, h.time, h.time'⟩
  show s.report ++ [_] = s'.report ++ [_]
  rw [h.report]

theorem blind_deliver (hq : Markup.IsQuiet (Delivery.header time).toList)
    (hq' : Markup.IsQuiet (Delivery.header time').toList) (options : BuildOptions) (config : Config)
    (base : Path) (css : String) : Job.Blind time time' (deliver options config base css) :=
  (Delivery.blind_deliver hq hq' _ _ _ _).bind fun _ => Job.blind_pure _

/-- Files are looked for and read before one is written, so the time has no part in a build. -/
theorem lockstep_run (hq : Markup.IsQuiet (Delivery.header time).toList)
    (hq' : Markup.IsQuiet (Delivery.header time').toList) (options : BuildOptions) (config : Config)
    (configPath : Path) (compiler : Compiler) (found : List Diagnostic) :
    Lockstep (Session.Same time time') (Session.Alike time time') Eq
      (run options config configPath compiler found)
      (run options config configPath compiler found) := by
  have hsame : ∀ s s', Session.Same time time' s s' → s.Alike time time' s' := fun _ _ h => h.alike
  refine (lockstep_read _).bind hsame ?_
  rintro files _ rfl
  simp only
  split
  · exact .pure hsame rfl
  refine (lockstep_say _ _).bind hsame fun _ _ _ => (lockstep_read _).bind hsame ?_
  rintro documents _ rfl
  split
  · exact .pure hsame rfl
  -- from here on files are written
  exact Lockstep.weaken hsame
    ((blind_deliver hq hq' options config _ _).bind fun _ => Job.blind_pure _)

end Build

namespace Builder

/-- A builder after runs on sessions that need have nothing to do with each other, whatever came of
them. -/
def after (b : Builder) (past : List Session) : Builder := past.foldl (fun b s => (b.run s).2.1) b

theorem options_run (b : Builder) (s : Session) : (b.run s).2.1.options = b.options := by
  unfold run
  split <;> rfl

theorem options_after (b : Builder) (past : List Session) : (b.after past).options = b.options := by
  induction past generalizing b with
  | nil => rfl
  | cons s past ih => exact (ih _).trans (options_run b s)

/-- A builder runs as a new one with its options does. -/
theorem run_eq_build (b : Builder) (s : Session) :
    ((b.run s).1, (b.run s).2.2) = build b.options s := by
  unfold build run
  have hload : (new b.options).loadConfig s.tree = b.loadConfig s.tree := rfl
  rw [hload]
  cases b.loadConfig s.tree with
  | error e => rfl
  -- configuring looks at nothing that the compiler holds, so both run the same build
  | ok loaded => rfl

/-- At two times a builder comes to the same, and leaves the same but for the times. -/
theorem alike_run {time time' : String} (hq : Markup.IsQuiet (Delivery.header time).toList)
    (hq' : Markup.IsQuiet (Delivery.header time').toList) (b : Builder) {s s' : Session}
    (h : s.Same time time' s') :
    (b.run s).1 = (b.run s').1 ∧ (b.run s).2.2.Alike time time' (b.run s').2.2 := by
  unfold run
  rw [h.tree]
  -- the configuration is the same, since it is read off the same tree
  cases b.loadConfig s'.tree with
  | error e => exact ⟨rfl, h.alike⟩
  | ok loaded =>
      obtain ⟨config, path⟩ := loaded
      obtain ⟨hr, hs⟩ := Build.lockstep_run hq hq' b.options config path
        (b.compiler.reconfigure config.breakpoints config.plugins).1
        (b.compiler.reconfigure config.breakpoints config.plugins).2 s s' h
      exact ⟨hr.eq, hs⟩

end Builder

/-- **Builds have no past.**  Two compilers that are configured alike hold the same, whatever they held
before: the same breakpoints, the same utilities, and the same was found.  The utilities are those that
the plugins register, in the order of their first registration and as the last one has them.  So both
compile all tokens alike, have the same candidates and make the same stylesheets.  A builder after any
runs, on any trees and however they ended, does what a new one with its options does: at the same time
it has the same result and leaves the same session; at another time it has the same result and the
same report, and the trees differ at most in the first lines of stylesheets, which tell the times. -/
theorem builds_without_past :
    (∀ (c c' : Compiler) (overrides : OrderedMap String BreakpointValue) (plugins : List Plugin),
      let r := c.reconfigure overrides plugins
      let r' := c'.reconfigure overrides plugins
      r.1.breakpoints = r'.1.breakpoints ∧ r.1.registry = r'.1.registry ∧ r.2 = r'.2 ∧
      r.1.registry.names = ((Compiler.registrations plugins).map Prod.fst).eraseDups ∧
      (∀ name, r.1.registry.get? name =
        ((Compiler.registrations plugins).reverse.find? fun u => u.1 = name).map Prod.snd) ∧
      (∀ token mode, r.1.compile token mode = r'.1.compile token mode) ∧
      (∀ token, r.1.isCandidate token = r'.1.isCandidate token) ∧
      ∀ documents, Sheet.ofDocuments r.1 documents = Sheet.ofDocuments r'.1 documents) ∧
    ∀ (options : BuildOptions) (past : List Session) (s : Session),
      let kept := (Builder.new options).after past
      ((kept.run s).1, (kept.run s).2.2) = build options s ∧
      ∀ now now' : Cli.Moment,
        let run := kept.run { s with time := now.stamp }
        let fresh := build options { s with time := now'.stamp }
        run.1 = fresh.1 ∧ run.2.2.report = fresh.2.report ∧
        run.2.2.tree.Alike (Delivery.header now.stamp) (Delivery.header now'.stamp) fresh.2.tree := by
  refine ⟨fun c c' overrides plugins => ⟨rfl, rfl, rfl, Compiler.names_reconfigure,
    Compiler.get?_reconfigure, fun _ _ => rfl, fun _ => rfl, fun _ => rfl⟩, fun options past s => ?_⟩
  have hbuild : ∀ s, ((((Builder.new options).after past).run s).1,
      (((Builder.new options).after past).run s).2.2) = build options s := by
    intro s
    rw [Builder.run_eq_build, Builder.options_after]
    rfl
  refine ⟨hbuild s, fun now now' => ?_⟩
  have hsame : Session.Same now.stamp now'.stamp { s with time := now.stamp }
      { s with time := now'.stamp } := ⟨rfl, rfl, rfl, rfl⟩
  obtain ⟨hr, hs⟩ := Builder.alike_run (Delivery.isQuiet_header now) (Delivery.isQuiet_header now')
    ((Builder.new options).after past) hsame
  intro run fresh
  have hfresh : fresh = ((((Builder.new options).after past).run { s with time := now'.stamp }).1,
      (((Builder.new options).after past).run { s with time := now'.stamp }).2.2) := (hbuild _).symm
  rw [hfresh]
  exact ⟨hr, hs.report, hs.tree⟩

end UtilityCss
