import UtilityCss.Proofs.Breakpoint.Report
import UtilityCss.Proofs.Breakpoint.Value
import UtilityCss.Proofs.Config.Decoded
import UtilityCss.Proofs.Config.RoundTrip

/-!
# Breakpoints never keep a configuration from loading

A text that is a configuration with some values for its breakpoints is one with any
(`Config.exists_of_ofFile_replaceBreakpoints`): what is wrong with a breakpoint is reported by the builds
that follow, and by nothing else (`Config.tolerates_breakpoints`).
-/

namespace UtilityCss
open Json
open BreakpointTable (Reports rejected)

namespace Config

variable {text text' : String} {j : Json} {f : String → Json → Json} {t t' : Tree} {p p' : Path}
  {c c' : Config}

theorem check_eq_ok_iff : check c = .ok c ↔ c.fault? = none := by
  rw [check]
  cases c.fault? with
  | none => exact ⟨fun _ => rfl, fun _ => rfl⟩
  | some fault =>
      constructor
      · intro h
        cases h
      · intro h
        cases h

theorem fault?_bare (c : Config) : c.bare.fault? = c.fault? := rfl

/-- A file is loaded as the configuration that its value is, if that has no faults. -/
theorem ofFile_of_ofJson? (hp : p.extension? = some "json") (htext : t.readText p = .ok text)
    (hj : Reader.all Reader.value text = .ok j) (hc : ofJson? j = some c) (hfault : c.fault? = none) :
    ofFile t p = .ok c :=
  (ofFile_eq_ok_iff hp).2 ⟨text, htext, (ofJsonText_eq_ok_iff hj).2 hc, check_eq_ok_iff.2 hfault⟩

/-- What a file is loaded as is what its value is. -/
theorem ofJson?_of_ofFile (hp : p.extension? = some "json") (htext : t.readText p = .ok text)
    (hj : Reader.all Reader.value text = .ok j) (h : ofFile t p = .ok c) :
    ofJson? j = some c ∧ c.fault? = none := by
  obtain ⟨s, hs, hc, hcheck⟩ := (ofFile_eq_ok_iff hp).1 h
  cases htext.symm.trans hs
  exact ⟨(ofJsonText_eq_ok_iff hj).1 hc, check_eq_ok_iff.1 hcheck⟩

/-- A value that is a configuration with other breakpoints is one. -/
theorem exists_of_ofJson?_replaceBreakpoints (h : ofJson? (replaceBreakpoints f j) = some c') :
    ∃ c, ofJson? j = some c ∧ c.bare = c'.bare := by
  have hbare := map_bare_ofJson? f j
  rw [h] at hbare
  exact Option.map_eq_some_iff.1 hbare.symm

theorem ofFile_of_load {file? : Option Path} {directory : Path}
    (h : load t file? directory = .ok (c, p)) : ofFile t p = .ok c := by
  unfold load at h
  cases file? with
  | some file | none =>
      obtain ⟨file, -, h⟩ := ok_of_bind h
      obtain ⟨config, hconfig, h⟩ := ok_of_bind h
      cases h
      exact hconfig

/-- A build reports what is wrong with breakpoints before anything else: one warning for each entry
that denotes no width, in the order of the entries, and no other that begins so. -/
def Reported (c : Config) (r : BuildResult) : Prop :=
  ∃ reports rest, r.diagnostics = reports ++ rest ∧
    List.Forall₂ Reports (rejected c.breakpoints.entries) reports ∧ ∀ d ∈ rest, ¬ d.IsReport

/-- **Any value is tolerated as a breakpoint.** A text that holds a JSON value is read as the value of
a breakpoint: as pixels if it is the digits of a number that fits 64 bits with a sign, as a fraction if
it is any other number, as a text if it is a string, and else as the value itself. If a configuration
is loaded from a text that holds the same value with others for the breakpoints, integers for instance,
then the same configuration but for the breakpoints, which are those that stand in the value, is loaded
from the text itself; and every build with it that has a result reports each breakpoint that denotes no
width, in order and before anything else. -/
theorem tolerates_breakpoints (hj : Reader.all Reader.value text = .ok j) :
    (∃ v, Reader.all BreakpointValue.reader text = .ok v ∧ v.Classifies text j) ∧
    ∀ f text' t' p' c', p'.extension? = some "json" → t'.readText p' = .ok text' →
      Reader.all Reader.value text' = .ok (replaceBreakpoints f j) → ofFile t' p' = .ok c' →
      ∃ c, c.bare = c'.bare ∧ c.breakpoints = breakpointsIn j ∧
        ∀ t p, p.extension? = some "json" → t.readText p = .ok text → ofFile t p = .ok c ∧
          ∀ (b : Builder) (s : Session) config r, s.tree = t →
            b.loadConfig s.tree = .ok (config, p) → (b.run s).1 = .ok r →
              config = c ∧ c.Reported r := by
  refine ⟨⟨_, BreakpointValue.all_reader hj, BreakpointValue.classifies hj⟩, ?_⟩
  intro f text' t' p' c' hp' htext' hj' hc'
  obtain ⟨hvalue', hfault'⟩ := ofJson?_of_ofFile hp' htext' hj' hc'
  obtain ⟨c, hvalue, hbare⟩ := exists_of_ofJson?_replaceBreakpoints hvalue'
  have hfault : c.fault? = none := by
    rw [← fault?_bare, hbare, fault?_bare]
    exact hfault'
  refine ⟨c, hbare, breakpoints_of_ofJson? hvalue, fun t p hp htext => ?_⟩
  have hload := ofFile_of_ofJson? hp htext hj hvalue hfault
  refine ⟨hload, ?_⟩
  rintro b s config r rfl hconfig hr
  obtain rfl := Except.ok.inj (hload.symm.trans (ofFile_of_load hconfig))
  exact ⟨rfl, Builder.reports_of_run hconfig hr⟩

/-- The text of a configuration with the given texts for breakpoints. -/
def widthsText (sm md xs tv : String) : String :=
  "\x7b\"files\": [\"a.html\"], \"breakpoints\": \x7b\"sm\": " ++ sm ++ ", \"md\": " ++ md ++
    ", \"xs\": " ++ xs ++ ", \"tv\": " ++ tv ++ "\x7d\x7d"

/-- The value that such a text holds. -/
def widthsValue (sm md xs tv : Json) : Json :=
  .object [("files", .array [.string "a.html"]),
    ("breakpoints", .object [("sm", sm), ("md", md), ("xs", xs), ("tv", tv)])]

/-- Breakpoints below zero, of no number, of a fraction and of an array. -/
def mixedWidths : String :=
  widthsText "-3" "\"wide\"" "480.5" "[null, \x7b\"a\": 18446744073709551615\x7d]"

/-- A project of one document with the given configuration. -/
def projectOf (text : String) : Session where
  tree := ⟨.ofList
    [(["w"], .directory),
     (["w", "valcss.config.json"], .file (.text text)),
     (["w", "a.html"], .file (.text "<p class='flex p-[;]'>"))]⟩
  report := []
  time   := "now"

theorem eq_ok_of_toOption {ε α : Type} {x : Except ε α} {a : α} (h : x.toOption = some a) : x = .ok a := by
  cases x with
  | error e => cases h
  | ok b =>
      cases h
      rfl

theorem tolerates_breakpoints_mixedWidths :
    ∃ c r, ofFile (projectOf mixedWidths).tree ⟨"/w/valcss.config.json"⟩ = .ok c ∧
      (Builder.inProject.run (projectOf mixedWidths)).1 = .ok r ∧ c.Reported r ∧
      (rejected c.breakpoints.entries).map Prod.fst = ["sm", "md", "tv"] := by
  have hmixed : Reader.all Reader.value mixedWidths = .ok (widthsValue (.int (-3)) (.string "wide")
      (.real (.ofRatio false 961 2)) (.array [.null, .object [("a", .int 18446744073709551615)]])) :=
    eq_ok_of_toOption (by decide +kernel)
  have hwhole : Reader.all Reader.value (widthsText "1" "1" "1" "1") =
      .ok (widthsValue (.int 1) (.int 1) (.int 1) (.int 1)) := eq_ok_of_toOption (by decide +kernel)
  have hloads : (ofFile (projectOf (widthsText "1" "1" "1" "1")).tree
      ⟨"/w/valcss.config.json"⟩).toOption.isSome := by decide +kernel
  have hruns : (Builder.inProject.run (projectOf mixedWidths)).1.toOption.isSome := by decide +kernel
  have hfound : ((Builder.inProject.loadConfig (projectOf mixedWidths).tree).toOption.map Prod.snd) =
      some ⟨"/w/valcss.config.json"⟩ := by decide +kernel
  obtain ⟨c', hc'⟩ := Option.isSome_iff_exists.1 hloads
  obtain ⟨r, hr⟩ := Option.isSome_iff_exists.1 hruns
  obtain ⟨⟨config, p⟩, hconfig, hp⟩ := Option.map_eq_some_iff.1 hfound
  obtain rfl : p = ⟨"/w/valcss.config.json"⟩ := hp
  obtain ⟨c, -, hbreakpoints, hc⟩ := (tolerates_breakpoints hmixed).2 (fun _ _ => .int 1) _
    (projectOf (widthsText "1" "1" "1" "1")).tree ⟨"/w/valcss.config.json"⟩ c' rfl rfl hwhole
    (eq_ok_of_toOption hc')
  obtain ⟨hload, hbuilds⟩ := hc (projectOf mixedWidths).tree ⟨"/w/valcss.config.json"⟩ rfl rfl
  obtain ⟨-, hreported⟩ := hbuilds Builder.inProject (projectOf mixedWidths) config r rfl
    (eq_ok_of_toOption hconfig) (eq_ok_of_toOption hr)
  refine ⟨c, r, hload, eq_ok_of_toOption hr, hreported, ?_⟩
  rw [hbreakpoints]
  decide +kernel

end Config

end UtilityCss
