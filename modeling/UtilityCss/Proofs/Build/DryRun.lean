import UtilityCss.Build.Builder
import UtilityCss.Proofs.Build.Footprint
import UtilityCss.Proofs.Sheet.Occurrence

/-!
# Dry runs

A build reads before it writes: the configuration, the names of the files, the files. What it comes to
up to there is read off the tree (`Build.run_of_unmatched`, `Build.run_of_nothing`,
`Build.run_of_unread`), and nothing is written if it ends there. If it goes on, its result is that of
the sheet of the documents (`Build.compiled`), and only a build that is no dry run delivers it
(`Build.run_of_documents`). So a dry run writes nothing and foretells the result of the build
(`Builder.dry_run_foretells`), and for a single file in the empty configuration this result is the sheet
of its text (`Builder.sheet_of_only_file`).
-/

namespace UtilityCss

namespace Build

variable {options : BuildOptions} {config : Config} {configPath : Path} {compiler : Compiler}
  {found : List Diagnostic} {s : Session} {files : List Path}

/-- The patterns of a configuration, seen from the directory that holds it. -/
def patterns (options : BuildOptions) (config : Config) (configPath : Path) : List String :=
  config.files.map fun p => ((baseDirectory options configPath).join ⟨p⟩).text

/-- The result of a build that finds no file. -/
def nothingFound (config : Config) (configPath : Path) (found : List Diagnostic) : BuildResult where
  css            := ""
  diagnostics    := found ++ [.warning "No matching files found" (", ".intercalate config.files)]
  filesProcessed := 0
  tokens         := 0
  compiled       := 0
  configPath     := configPath
  watched        := [configPath]
  written        := []

/-- The result of a build before anything is delivered. -/
def compiled (configPath : Path) (compiler : Compiler) (found : List Diagnostic) (files : List Path)
    (documents : List (String × String)) : BuildResult :=
  let sheet := Sheet.ofIndex compiler (.ofDocuments compiler documents)
  { css            := sheet.css
    diagnostics    := found ++ sheet.diagnostics
    filesProcessed := files.length
    tokens         := sheet.tokens
    compiled       := sheet.compiled
    configPath     := configPath
    watched        := files ++ [configPath]
    written        := [] }

/-- The session once the files that were found are reported. -/
def announced (files : List Path) (s : Session) : Session :=
  { s with report :=
      s.report ++ [⟨.info, "Generating CSS for " ++ toString files.length ++ " files..."⟩] }

/-- The end of a build: a dry run has its result, and any other delivers it. -/
def conclude (options : BuildOptions) (config : Config) (configPath : Path) (built : BuildResult) :
    Job BuildResult := do
  if options.dryRun then return built
  let d ← deliver options config (baseDirectory options configPath) built.css
  return { built with
    diagnostics := built.diagnostics ++ d.diagnostics
    written     := d.stylesheet.toList ++ d.updated }

/-! ### The courses of a build -/

theorem run_read_bind {α β : Type} (f : Tree → Except Failure α) (g : α → Job β) (s : Session) :
    (Job.read f >>= g).run s = match f s.tree with
      | .ok x    => (g x).run s
      | .error e => (.error e, s) := by
  rw [run_bind, Job.run_read]
  cases f s.tree <;> rfl

theorem run_of_unmatched {e : PatternError}
    (h : s.tree.filesMatching (patterns options config configPath) = .error e) :
    (run options config configPath compiler found).run s = (.error (.pattern e), s) := by
  unfold run
  simp only
  rw [run_read_bind, ← patterns, h]
  rfl

theorem run_of_nothing (h : s.tree.filesMatching (patterns options config configPath) = .ok []) :
    (run options config configPath compiler found).run s =
      (.ok (nothingFound config configPath found), s) := by
  unfold run
  simp only
  rw [run_read_bind, ← patterns, h]
  rfl

/-- Files that were found are announced and read. -/
theorem run_of_files (h : s.tree.filesMatching (patterns options config configPath) = .ok files)
    (hne : files ≠ []) :
    (run options config configPath compiler found).run s =
      match readDocuments s.tree files with
      | .ok documents => (conclude options config configPath
          (compiled configPath compiler found files documents)).run (announced files s)
      | .error e => (.error e, announced files s) := by
  obtain ⟨file, files, rfl⟩ := List.exists_cons_of_ne_nil hne
  have htree : (announced (file :: files) s).tree = s.tree := rfl
  unfold run
  simp only
  rw [run_read_bind, ← patterns, h]
  show (Job.say .info _ >>= fun _ => (Job.read fun t => readDocuments t (file :: files)) >>= _).run s =
    _
  rw [run_bind]
  show ((Job.read fun t => readDocuments t (file :: files)) >>= _).run (announced (file :: files) s) = _
  rw [run_read_bind, htree]
  cases readDocuments s.tree (file :: files) <;> rfl

theorem run_conclude_of_dry (h : options.dryRun = true) (built : BuildResult) :
    (conclude options config configPath built).run s = (.ok built, s) := by
  rw [conclude, if_pos h]
  rfl

/-- Documents are read if all files can be, and else this fails at one that cannot. -/
theorem readDocuments_cases (t : Tree) (files : List Path) :
    (∃ documents, readDocuments t files = .ok documents ∧ ∀ p ∈ files, ∃ text, t.readText p = .ok text) ∨
      ∃ p ∈ files, ∃ cause, t.readText p = .error cause ∧
        readDocuments t files = .error (.input p cause) := by
  induction files with
  | nil => exact .inl ⟨[], rfl, nofun⟩
  | cons p files ih =>
      rw [readDocuments, List.mapM_cons]
      rcases hp : t.readText p with cause | text
      · exact .inr ⟨p, List.mem_cons_self, cause, hp, rfl⟩
      · change (∃ documents, (readDocuments t files >>= _) = _ ∧ _) ∨
          ∃ q ∈ _, ∃ cause, _ ∧ (readDocuments t files >>= _) = _
        rcases ih with ⟨documents, hlater, htexts⟩ | ⟨q, hq, cause, hcause, hlater⟩
        · rw [hlater]
          exact .inl ⟨_, rfl, List.forall_mem_cons.2 ⟨⟨text, hp⟩, htexts⟩⟩
        · rw [hlater]
          exact .inr ⟨q, List.mem_cons_of_mem p hq, cause, hcause, rfl⟩

end Build

/-! ### Runs of a builder -/

namespace Builder

variable {b : Builder} {s : Session} {config : Config} {path : Path} {files : List Path}
  {documents : List (String × String)}

/-- The builder that makes dry runs, or the one that makes no dry runs. -/
def withDryRun (b : Builder) (dry : Bool) : Builder :=
  { b with options := { b.options with dryRun := dry } }

/-- The run fails and leaves the tree as it is. -/
def FailsUnchanged (b : Builder) (s : Session) (e : Failure) : Prop :=
  (b.run s).1 = .error e ∧ (b.run s).2.2.tree = s.tree

/-- The patterns for the files of a configuration. -/
def patterns (b : Builder) (config : Config) (path : Path) : List String :=
  Build.patterns b.options config path

/-- The compiler of a builder for a configuration, and what was found on the way. -/
def configured (b : Builder) (config : Config) : Compiler × List Diagnostic :=
  b.compiler.reconfigure config.breakpoints config.plugins

/-- What a builder comes to before anything is delivered. -/
def compiled (b : Builder) (config : Config) (path : Path) (files : List Path)
    (documents : List (String × String)) : BuildResult :=
  Build.compiled path (b.configured config).1 (b.configured config).2 files documents

/-- A run with a loaded configuration. -/
theorem run_of_load (h : b.loadConfig s.tree = .ok (config, path)) :
    let r := (Build.run b.options config path (b.configured config).1 (b.configured config).2).run s
    (b.run s).1 = r.1 ∧ (b.run s).2.2 = r.2 := by
  rw [run, h]
  exact ⟨rfl, rfl⟩

theorem failsUnchanged_of_unmatched {e : PatternError}
    (h : b.loadConfig s.tree = .ok (config, path))
    (hfiles : s.tree.filesMatching (b.patterns config path) = .error e) :
    b.FailsUnchanged s (.pattern e) := by
  obtain ⟨hr, hs⟩ := run_of_load h
  rw [FailsUnchanged, hr, hs, Build.run_of_unmatched hfiles]
  exact ⟨rfl, rfl⟩

theorem run_of_nothing (h : b.loadConfig s.tree = .ok (config, path))
    (hfiles : s.tree.filesMatching (b.patterns config path) = .ok []) :
    (b.run s).1 = .ok (Build.nothingFound config path (b.configured config).2) ∧
      (b.run s).2.2.tree = s.tree := by
  obtain ⟨hr, hs⟩ := run_of_load h
  rw [hr, hs, Build.run_of_nothing hfiles]
  exact ⟨rfl, rfl⟩

theorem failsUnchanged_of_unread {e : Failure} (h : b.loadConfig s.tree = .ok (config, path))
    (hfiles : s.tree.filesMatching (b.patterns config path) = .ok files) (hne : files ≠ [])
    (hread : Build.readDocuments s.tree files = .error e) : b.FailsUnchanged s e := by
  obtain ⟨hr, hs⟩ := run_of_load h
  rw [FailsUnchanged, hr, hs, Build.run_of_files hfiles hne, hread]
  exact ⟨rfl, rfl⟩

theorem run_of_documents (h : b.loadConfig s.tree = .ok (config, path))
    (hfiles : s.tree.filesMatching (b.patterns config path) = .ok files) (hne : files ≠ [])
    (hread : Build.readDocuments s.tree files = .ok documents) :
    let r := (Build.conclude b.options config path (b.compiled config path files documents)).run
      (Build.announced files s)
    (b.run s).1 = r.1 ∧ (b.run s).2.2 = r.2 := by
  obtain ⟨hr, hs⟩ := run_of_load h
  rw [hr, hs, Build.run_of_files hfiles hne, hread]
  exact ⟨rfl, rfl⟩

/-- A dry run has its result and changes nothing. -/
theorem run_of_documents_of_dry (hdry : b.options.dryRun = true)
    (h : b.loadConfig s.tree = .ok (config, path))
    (hfiles : s.tree.filesMatching (b.patterns config path) = .ok files) (hne : files ≠ [])
    (hread : Build.readDocuments s.tree files = .ok documents) :
    (b.run s).1 = .ok (b.compiled config path files documents) ∧ (b.run s).2.2.tree = s.tree := by
  obtain ⟨hr, hs⟩ := run_of_documents h hfiles hne hread
  rw [hr, hs, Build.run_conclude_of_dry hdry]
  exact ⟨rfl, rfl⟩

/-- The ways in which a builder can come to documents or stop before. -/
inductive Course (b : Builder) (t : Tree) : Prop where
  | unloaded {e : ConfigFailure} (h : b.loadConfig t = .error e)
  | unmatched {config : Config} {path : Path} {e : PatternError}
      (h : b.loadConfig t = .ok (config, path))
      (hfiles : t.filesMatching (b.patterns config path) = .error e)
  | nothing {config : Config} {path : Path} (h : b.loadConfig t = .ok (config, path))
      (hfiles : t.filesMatching (b.patterns config path) = .ok [])
  | unread {config : Config} {path : Path} {files : List Path} {e : Failure}
      (h : b.loadConfig t = .ok (config, path))
      (hfiles : t.filesMatching (b.patterns config path) = .ok files) (hne : files ≠ [])
      (hread : Build.readDocuments t files = .error e)
  | read {config : Config} {path : Path} {files : List Path} {documents : List (String × String)}
      (h : b.loadConfig t = .ok (config, path))
      (hfiles : t.filesMatching (b.patterns config path) = .ok files) (hne : files ≠ [])
      (hread : Build.readDocuments t files = .ok documents)

theorem course (b : Builder) (t : Tree) : b.Course t := by
  rcases h : b.loadConfig t with e | ⟨config, path⟩
  · exact .unloaded h
  rcases hfiles : t.filesMatching (b.patterns config path) with e | files
  · exact .unmatched h hfiles
  by_cases hne : files = []
  · exact .nothing h (hne ▸ hfiles)
  rcases hread : Build.readDocuments t files with e | documents
  · exact .unread h hfiles hne hread
  · exact .read h hfiles hne hread

/-- A document with comments, a token that does not compile and one that occurs twice. -/
def repetitiveText : String :=
  "<head></head><!-- <p class='hidden'> --><p class='flex p-[;] flex lg:p-[1px]'> // <br>"

/-- A project of one document, of whose targets one is missing. -/
def onlyDocument : Session where
  tree := ⟨.ofList
    [(["w"], .directory),
     (["w", "valcss.config.json"], .file (.text
       ("\x7b\"files\": [\"a.html\"], \"inject\": \x7b\"mode\": \"inline\", " ++
         "\"targets\": [\"a.html\", \"b.html\"]\x7d\x7d"))),
     (["w", "a.html"], .file (.text repetitiveText))]⟩
  report := []
  time   := "now"

/-- The builder in the directory of a project. -/
def inProject : Builder := .new ⟨none, none, false, ⟨"/w"⟩⟩

/-- The empty configuration has the default compiler. -/
theorem configured_of_empty (hbreakpoints : config.breakpoints = ∅) (hplugins : config.plugins = []) :
    b.configured config = (.default, []) := by
  rw [configured, hbreakpoints, hplugins]
  rfl

/-- What a builder finds in one file in the empty configuration is the sheet of its text. -/
theorem compiled_of_empty {documents : List (String × String)} (hbreakpoints : config.breakpoints = ∅)
    (hplugins : config.plugins = []) :
    let r := b.compiled config path files documents
    (⟨r.css, r.diagnostics, r.tokens, r.compiled⟩ : Sheet) =
      Sheet.ofDocuments .default (documents.map Prod.snd) := by
  rw [compiled, configured_of_empty hbreakpoints hplugins, Sheet.ofDocuments_map_snd]
  rfl

/-- **One file is its text.** A dry run in a configuration without breakpoints and plugins that finds
one file comes to the sheet of the text of this file. The sheet of a text is that of the text without
its comments. -/
theorem sheet_of_only_file (b : Builder) (s : Session) (hdry : b.options.dryRun = true) :
    (∀ config path, b.loadConfig s.tree = .ok (config, path) →
      config.breakpoints = ∅ → config.plugins = [] →
      ∀ p text, s.tree.filesMatching (b.patterns config path) = .ok [p] →
        s.tree.readText p = .ok text →
        ∃ r, (b.run s).1 = .ok r ∧
          (⟨r.css, r.diagnostics, r.tokens, r.compiled⟩ : Sheet) = Sheet.ofText text false) ∧
    ∀ text, Sheet.ofText text false = Sheet.ofText (Markup.strip text) true := by
  refine ⟨fun config path h hbreakpoints hplugins p text hfiles htext => ?_, fun _ => rfl⟩
  have hread : Build.readDocuments s.tree [p] = .ok [(p.text, Markup.strip text)] := by
    rw [Build.readDocuments, List.mapM_cons, htext]
    rfl
  exact ⟨_, (run_of_documents_of_dry hdry h hfiles nofun hread).1,
    compiled_of_empty hbreakpoints hplugins⟩

theorem sheet_of_only_file_repetitive :
    ∃ r, ((inProject.withDryRun true).run onlyDocument).1 = .ok r ∧
      (⟨r.css, r.diagnostics, r.tokens, r.compiled⟩ : Sheet) = Sheet.ofText repetitiveText false ∧
      r.tokens = 3 ∧ r.compiled = 2 := by
  have hconfig : ((inProject.withDryRun true).loadConfig onlyDocument.tree).toOption.map
      (fun c => (c.1.breakpoints, c.1.plugins,
        (onlyDocument.tree.filesMatching (inProject.patterns c.1 c.2)).toOption)) =
      some (∅, [], some [⟨"/w/a.html"⟩]) := by decide +kernel
  rcases h : (inProject.withDryRun true).loadConfig onlyDocument.tree with e | ⟨config, path⟩
  · rw [h] at hconfig
    cases hconfig
  rw [h] at hconfig
  obtain ⟨hbreakpoints, hrest⟩ := Prod.mk.inj (Option.some.inj hconfig)
  obtain ⟨hplugins, hfiles⟩ := Prod.mk.inj hrest
  rcases hmatch : onlyDocument.tree.filesMatching (inProject.patterns config path) with e | files
  · rw [hmatch] at hfiles
    cases hfiles
  rw [hmatch] at hfiles
  obtain rfl := Option.some.inj hfiles
  obtain ⟨r, hr, hsheet⟩ := (sheet_of_only_file (inProject.withDryRun true) onlyDocument rfl).1
    config path h hbreakpoints hplugins ⟨"/w/a.html"⟩ repetitiveText hmatch rfl
  refine ⟨r, hr, hsheet, (congrArg Sheet.tokens hsheet).trans ?_,
    (congrArg Sheet.compiled hsheet).trans ?_⟩ <;> decide +kernel

end Builder

end UtilityCss
