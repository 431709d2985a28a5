import UtilityCss.Proofs.Build.DryRun
import UtilityCss.Proofs.File.Literal

/-!
# The files of a dry run

A dry run reads the files that its patterns match, or fails at one of them
(`Builder.processes_of_filesMatching`). The patterns are the listed ones behind the directory of the
configuration, in one text: a listed name stands for the file of this name there if no character of the
directory is special in patterns (`Builder.processes_listed`), and for others if one is
(`Builder.not_processes_bracketed`). The directory may be relative, but not as `.//w`.
-/

namespace UtilityCss.Builder

variable {b : Builder} {s : Session} {config : Config} {path : Path} {files : List Path}

/-- The run reads these files and nothing else but the configuration, or fails at one of them. -/
def Processes (b : Builder) (s : Session) (path : Path) (files : List Path) : Prop :=
  (∃ r, (b.run s).1 = .ok r ∧ r.filesProcessed = files.length ∧ r.watched = files ++ [path]) ∨
    ∃ p ∈ files, ∃ cause, s.tree.readText p = .error cause ∧ (b.run s).1 = .error (.input p cause)

/-- The directory from which a builder sees the paths of a configuration. -/
def directory (b : Builder) (path : Path) : Path := Build.baseDirectory b.options path

theorem processes_of_filesMatching (hdry : b.options.dryRun = true)
    (h : b.loadConfig s.tree = .ok (config, path))
    (hfiles : s.tree.filesMatching (b.patterns config path) = .ok files) :
    b.Processes s path files := by
  by_cases hne : files = []
  · subst hne
    exact .inl ⟨_, (run_of_nothing h hfiles).1, rfl, rfl⟩
  · rcases Build.readDocuments_cases s.tree files with ⟨documents, hread, -⟩ | ⟨p, hp, cause, hcause, hread⟩
    · exact .inl ⟨_, (run_of_documents_of_dry hdry h hfiles hne hread).1, rfl, rfl⟩
    · exact .inr ⟨p, hp, cause, hcause, (failsUnchanged_of_unread h hfiles hne hread).1⟩

/-! ### One listed file -/

section Row

variable {p : Path} {names : List String}

theorem isAbsolute_row (hnames : ∀ name ∈ names, Path.IsName name) :
    (Path.mk ("/".intercalate names)).isAbsolute = false := by
  rw [← Path.ofPieces_unsaid_eq]
  exact Path.isAbsolute_ofPieces_unsaid hnames

/-- The last pieces of a row of names behind a directory are the names. -/
theorem splitPieces_join_row (hnames : ∀ name ∈ names, Path.IsName name) (hne : names ≠ []) :
    Path.splitPieces (p.join ⟨"/".intercalate names⟩).text.toList =
      Path.splitComponents p.text.toList ++ names.map String.toList := by
  have hslash : ("/" : String).toList = ['/'] := rfl
  rw [Path.splitPieces_join p (isAbsolute_row hnames), String.toList_intercalate, hslash,
    Path.splitPieces_intercalate hnames hne]

/-- A row of names ends in a name. -/
theorem getLast?_splitPieces_join_row (hnames : ∀ name ∈ names, Path.IsName name) (hne : names ≠ []) :
    (Path.splitPieces (p.join ⟨"/".intercalate names⟩).text.toList).getLast? ≠ some [] := by
  rw [splitPieces_join_row hnames hne, List.getLast?_append_of_ne_nil _ (by simpa using hne)]
  intro hlast
  have hleads := Path.leads_of_mem_map hnames [] (List.mem_of_getLast? hlast)
  cases hleads

/-- Names that are joined to a directory change nothing about the dots at its start. -/
theorem isAnchored_join_row (hnames : ∀ name ∈ names, Path.IsName name) (hne : names ≠ []) :
    (p.join ⟨"/".intercalate names⟩).IsAnchored ↔ p.IsAnchored := by
  have hfirst : (names.map String.toList).find? (· ≠ ['.']) ≠ some [] := by
    intro h
    have hleads := Path.leads_of_mem_map hnames [] (List.mem_of_find?_eq_some h)
    cases hleads
  unfold Path.IsAnchored
  rw [Path.isAbsolute_join (isAbsolute_row hnames), Path.splitComponents,
    if_neg (getLast?_splitPieces_join_row hnames hne), splitPieces_join_row hnames hne,
    List.find?_append]
  cases (Path.splitComponents p.text.toList).find? (· ≠ ['.']) with
  | none => exact or_congr_right (iff_of_true hfirst (Option.some_ne_none _).symm)
  | some piece => rfl

/-- A row of names behind a directory is plain if the names and the directory are. -/
theorem isPlain_join_row (hp : Pattern.IsPlain p.text.toList)
    (hnames : ∀ name ∈ names, Path.IsName name)
    (hplain : ∀ name ∈ names, Pattern.IsPlain name.toList) :
    Pattern.IsPlain (p.join ⟨"/".intercalate names⟩).text.toList := by
  have hrow : Pattern.IsPlain ("/".intercalate names).toList := by
    have hc : ∀ c, c ≠ '/' → (∀ name ∈ names, c ∉ name.toList) → c ∉ ("/".intercalate names).toList := by
      intro c hslash hc hmem
      obtain ⟨name, hname, hin⟩ := (Path.mem_row hslash).1 hmem
      exact hc name hname hin
    exact ⟨hc _ (by decide) fun name hname => (hplain name hname).1,
      hc _ (by decide) fun name hname => (hplain name hname).2.1,
      hc _ (by decide) fun name hname => (hplain name hname).2.2⟩
  rw [Path.toList_join (isAbsolute_row hnames), Pattern.isPlain_append]
  refine ⟨hp, ?_⟩
  split
  · exact hrow
  · exact (Pattern.isPlain_append (s := ['/'])).2 ⟨by decide, hrow⟩

end Row

/-- **A listed file is the file that is read.**  Let the configuration list one row of names, and let
none of their characters be special in patterns, nor any of the directory that holds it. Then a dry run
reads one file at most: the one at this place, by the path that the names lead to from the directory,
without its empty pieces. It reads this file if it is there, and no file if none is there. This holds of
all such directories but the relative ones that have an empty piece behind the dots at their start: with
these it reads no file. -/
theorem processes_listed (b : Builder) (s : Session) (hdry : b.options.dryRun = true)
    {config : Config} {path : Path} {names : List String}
    (hload : b.loadConfig s.tree = .ok (config, path))
    (hfiles : config.files = ["/".intercalate names]) (hne : names ≠ [])
    (hnames : ∀ name ∈ names, Path.IsName name)
    (hplain : ∀ name ∈ names, Pattern.IsPlain name.toList)
    (hdirectory : Pattern.IsPlain (b.directory path).text.toList) :
    let q := (b.directory path).join ⟨"/".intercalate names⟩
    let p := q.respelled
    b.Processes s path (if (b.directory path).IsAnchored ∧ s.tree.isFile p then [p] else []) ∧
      p.place = (b.directory path).place ++ names ∧
      ((∀ piece ∈ q.pieces, piece ≠ []) → p = q) ∧
      (s.tree.isFile q → s.tree.isFile p) ∧
      (Tree.pathError? q = none → s.tree.isFile p → s.tree.isFile q) := by
  intro q p
  have hmatch : s.tree.filesMatching (b.patterns config path) =
      .ok (if (b.directory path).IsAnchored ∧ s.tree.isFile p then [p] else []) := by
    have h := s.tree.filesMatching_of_isPlain (isPlain_join_row hdirectory hnames hplain)
      (getLast?_splitPieces_join_row hnames hne)
    simp only [isAnchored_join_row hnames hne] at h
    rw [patterns, Build.patterns, hfiles]
    exact h
  have hplace : q.place = (b.directory path).place ++ names := by
    have h := Path.place_join_names (b.directory path) hnames
    rwa [Path.ofPieces_unsaid_eq] at h
  have hp : p.place = (b.directory path).place ++ names := q.place_respelled.trans hplace
  have htext : p.text ≠ "" := by
    refine Path.ne_empty_of_place ?_
    rw [hp]
    exact List.append_ne_nil_of_right_ne_nil _ hne
  refine ⟨processes_of_filesMatching hdry hload hmatch, hp, Path.respelled_eq, fun hfile => ?_,
    fun herror hfile => ?_⟩
  · obtain ⟨content, hfind⟩ := Tree.isFile_iff.1 hfile
    have herror := Tree.pathError?_of_spot (Tree.spot_of_find hfind)
    exact (Tree.isFile_respelled htext herror).trans hfile
  · exact (Tree.isFile_respelled htext herror).symm.trans hfile

/-- A project of one document in a directory of the given name. -/
def projectIn (name : String) : Session where
  tree := ⟨.ofList
    [(["w"], .directory), (["w", name], .directory),
     (["w", name, "valcss.config.json"], .file (.text "\x7b\"files\": [\"x.html\"]\x7d")),
     (["w", name, "x.html"], .file (.text "<p class='flex'>"))]⟩
  report := []
  time   := "now"

/-- The builder that makes dry runs of such a project, from the given directory. -/
def dryFrom (workingDirectory : Path) (name : String) : Builder :=
  .new ⟨some ⟨name ++ "/valcss.config.json"⟩, none, true, workingDirectory⟩

/-- The builder that makes dry runs of such a project. -/
def dryIn (name : String) : Builder := dryFrom ⟨"/w"⟩ name

/-- A closing bracket alone is not special, and the directory can be relative. -/
theorem processes_listed_unbracketed :
    (dryIn "a]!b").Processes (projectIn "a]!b") ⟨"/w/a]!b/valcss.config.json"⟩ [⟨"/w/a]!b/x.html"⟩] ∧
      (dryFrom ⟨"w"⟩ "a]!b").Processes (projectIn "a]!b") ⟨"w/a]!b/valcss.config.json"⟩
        [⟨"w/a]!b/x.html"⟩] := by
  have hone : ∀ (b : Builder) (path file : Path), b.options.dryRun = true →
      (b.loadConfig (projectIn "a]!b").tree).toOption.map (fun c => (c.1.files, c.2)) =
        some (["x.html"], path) →
      (b.directory path).IsAnchored → Pattern.IsPlain (b.directory path).text.toList →
      (b.directory path).join ⟨"x.html"⟩ = file → (∀ piece ∈ file.pieces, piece ≠ []) →
      (projectIn "a]!b").tree.isFile file → b.Processes (projectIn "a]!b") path [file] := by
    rintro b path _ hdry hconfig hanchored hdirectory rfl hpieces hfile
    rcases hload : b.loadConfig (projectIn "a]!b").tree with e | ⟨config, path⟩
    · rw [hload] at hconfig
      cases hconfig
    rw [hload] at hconfig
    obtain ⟨hlisted, rfl⟩ := Prod.mk.inj (Option.some.inj hconfig)
    have hfiles : config.files = ["/".intercalate ["x.html"]] := hlisted
    have hnames : ∀ name ∈ ["x.html"], Path.IsName name :=
      List.forall_mem_singleton.2 ⟨by decide, by decide, by decide⟩
    obtain ⟨h, -, hspelling, hthere, -⟩ := processes_listed b (projectIn "a]!b") hdry hload hfiles
      (by decide) hnames (by decide) hdirectory
    have hp := hspelling hpieces
    rw [if_pos ⟨hanchored, hthere hfile⟩, hp] at h
    exact h
  constructor
  · exact hone _ _ _ rfl (by decide +kernel) (by decide +kernel) (by decide +kernel)
      (by decide +kernel) (by decide +kernel) (by decide +kernel)
  · exact hone _ _ _ rfl (by decide +kernel) (by decide +kernel) (by decide +kernel)
      (by decide +kernel) (by decide +kernel) (by decide +kernel)

/-- The pattern `a[b]`, which matches `ab` alone. -/
def bracketed : Pattern := ⟨[.char 'a', .within [.single 'b']]⟩

/-- A directory with brackets in its name is not matched by its name. -/
theorem filesMatching_bracketed :
    (projectIn "a[b]").tree.filesMatching ["/w/a[b]/x.html"] = .ok [] := by
  have hread : (PathPattern.ofText "/w/a[b]/x.html").toOption =
      some ⟨true, [.literal ['w'], bracketed, .literal "x.html".toList], false⟩ := by
    decide +kernel
  have hnames : ∀ name ∈ PathPattern.namesIn (projectIn "a[b]").tree ⟨"/w"⟩,
      bracketed.isMatch name = false := by
    intro name hname
    obtain ⟨e, he, hlast⟩ := PathPattern.mem_namesIn hname
    have hall : ∀ e ∈ (projectIn "a[b]").tree.nodes.entries, ∀ name ∈ e.1.getLast?,
        bracketed.isMatch name = false := by decide +kernel
    exact hall e he name hlast
  have hpaths : PathPattern.paths (projectIn "a[b]").tree
      ⟨true, [.literal ['w'], bracketed, .literal "x.html".toList], false⟩ = [] := by
    have hleads : PathPattern.leadsOn (projectIn "a[b]").tree ⟨"/"⟩ (String.ofList ['w']) := by
      decide +kernel
    have hchild : PathPattern.child ⟨"/"⟩ (String.ofList ['w']) = ⟨"/w"⟩ := by decide +kernel
    rw [PathPattern.paths, if_pos rfl, PathPattern.expand]
    simp only [Pattern.isRecursive_literal, Pattern.literal?_literal, Bool.false_eq_true, if_false]
    rw [if_pos hleads, hchild]
    exact PathPattern.expand_of_no_match (by decide) (by decide) (by decide) hnames
  cases htext : PathPattern.ofText "/w/a[b]/x.html" with
  | error e =>
      rw [htext] at hread
      cases hread
  | ok p =>
      rw [htext] at hread
      obtain rfl := Option.some.inj hread
      have hmap : ["/w/a[b]/x.html"].mapM PathPattern.ofText =
          .ok [⟨true, [.literal ['w'], bracketed, .literal "x.html".toList], false⟩] := by
        rw [List.mapM_cons, htext]
        rfl
      rw [Tree.filesMatching, hmap]
      show Except.ok (Path.distinct _) = _
      rw [List.flatMap_singleton, hpaths]
      rfl

/-- In a directory with brackets in its name the listed file is there and is not read. -/
theorem not_processes_bracketed :
    ((dryIn "a[b]").loadConfig (projectIn "a[b]").tree).toOption.map
        (fun c => (c.1.files, (dryIn "a[b]").directory c.2)) = some (["x.html"], ⟨"/w/a[b]"⟩) ∧
      (projectIn "a[b]").tree.isFile ⟨"/w/a[b]/x.html"⟩ ∧
      ¬ (dryIn "a[b]").Processes (projectIn "a[b]") ⟨"/w/a[b]/valcss.config.json"⟩
        [⟨"/w/a[b]/x.html"⟩] := by
  have hconfig : ((dryIn "a[b]").loadConfig (projectIn "a[b]").tree).toOption.map
      (fun c => (c.1.files, (dryIn "a[b]").directory c.2)) = some (["x.html"], ⟨"/w/a[b]"⟩) := by
    decide +kernel
  refine ⟨hconfig, by decide +kernel, fun h => ?_⟩
  rcases hload : (dryIn "a[b]").loadConfig (projectIn "a[b]").tree with e | ⟨config, path⟩
  · rw [hload] at hconfig
    cases hconfig
  rw [hload] at hconfig
  obtain ⟨hfiles, hdirectory⟩ := Prod.mk.inj (Option.some.inj hconfig)
  have hpattern : (dryIn "a[b]").patterns config path = ["/w/a[b]/x.html"] := by
    have hjoin : (Path.mk "/w/a[b]").join ⟨"x.html"⟩ = ⟨"/w/a[b]/x.html"⟩ := by decide +kernel
    rw [patterns, Build.patterns, hfiles]
    exact congrArg (fun d => [(Path.join d ⟨"x.html"⟩).text]) hdirectory |>.trans
      (congrArg (fun p => [Path.text p]) hjoin)
  have hrun := (run_of_nothing hload (hpattern ▸ filesMatching_bracketed)).1
  rcases h with ⟨r, hr, hone, -⟩ | ⟨_, _, _, _, hr⟩
  · cases hrun.symm.trans hr
    cases hone
  · cases hrun.symm.trans hr

end UtilityCss.Builder
