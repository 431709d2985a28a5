import UtilityCss.Proofs.Build.Footprint
import UtilityCss.Proofs.Config.RoundTrip
import UtilityCss.Proofs.File.Joined

/-!
# New configurations

A new configuration is made where nothing stands under any of the candidates' names, and the
configuration of a directory is the first candidate that is a file. Both look at paths of one directory,
and where one of these can be followed the others can be, if they are no longer
(`Tree.spot_join_of_spot`). So a configuration is made exactly where nothing bars it
(`Config.initiation`), and making it adds one file and no more; this file is the one that is found, it holds the initial
configuration (`Config.load_of_not_barred`), and no other is made beside it (`Config.init_is_discovered`).
-/

namespace UtilityCss

/-! ### One configuration -/

namespace Config
open UtilityCss.Tree UtilityCss.Path ConfigFailure

variable {directory p q : Path} {yaml : Bool} {name : String} {s s' : Session} {t : Tree}

/-- The name and the text of a new configuration. -/
def newFile (yaml : Bool) : String × String :=
  if yaml then ("valcss.config.yaml", initialYaml) else ("valcss.config.json", initial.toJsonText)

/-- The path of a new configuration. -/
def newPath (directory : Path) (yaml : Bool) : Path := directory.join ⟨(newFile yaml).1⟩

theorem newFile_mem (yaml : Bool) : (newFile yaml).1 ∈ candidates := by
  cases yaml <;> decide

theorem isName_of_mem_candidates : ∀ name ∈ candidates, IsName name := by
  unfold IsName
  decide

theorem mem_candidatePaths : q ∈ candidatePaths directory ↔
    ∃ name ∈ candidates, directory.join ⟨name⟩ = q := List.mem_map

theorem place_newPath (directory : Path) (yaml : Bool) :
    (newPath directory yaml).place = directory.place ++ [(newFile yaml).1] :=
  place_join_name directory (isName_of_mem_candidates _ (newFile_mem yaml))

/-- Where a new configuration can be written, every candidate can be looked for. -/
theorem spot_candidate {s : Spot} (h : t.spot (newPath directory yaml) = .ok s)
    (hname : name ∈ candidates) :
    t.spot (directory.join ⟨name⟩) = .ok (t.spotAt (directory.join ⟨name⟩).place) := by
  have hnul : ∀ name ∈ candidates, '\x00' ∉ name.toList := by decide
  have hlength : ∀ name ∈ candidates, name.utf8ByteSize ≤ (newFile yaml).1.utf8ByteSize := by
    cases yaml <;> decide
  exact spot_join_of_spot (isName_of_mem_candidates _ (newFile_mem yaml))
    (isName_of_mem_candidates name hname) (hnul name hname) (hlength name hname) h

theorem run_init_of_some (h : (candidatePaths directory).find? s.tree.exists? = some q)
    (yaml : Bool) : (init directory yaml).run s = (.error (.config (.occupied q)), s) := by
  have hget : (get : Job Session).run s = (.ok s, s) := rfl
  unfold init
  rw [run_bind, hget]
  simp only [h]
  rfl

theorem run_init_of_none (h : (candidatePaths directory).find? s.tree.exists? = none)
    (yaml : Bool) : (init directory yaml).run s =
      match (FileM.write (newPath directory yaml) (.text (newFile yaml).2)).run s.tree with
      | (.error e, tree) => (.error (.output (newPath directory yaml) e), { s with tree })
      | (.ok (), tree)   => (.ok (newPath directory yaml), { s with tree }) := by
  have hget : (get : Job Session).run s = (.ok s, s) := rfl
  unfold init
  rw [run_bind, hget]
  simp only [h]
  show (Job.files (.output (newPath directory yaml)) (FileM.write (newPath directory yaml)
    (.text (newFile yaml).2)) >>= fun _ => return newPath directory yaml).run s = _
  rw [run_bind, Job.run_files]
  rcases (FileM.write (newPath directory yaml) (.text (newFile yaml).2)).run s.tree with
    ⟨_ | _, tree⟩ <;> rfl

/-- Why no configuration is made: something stands under the name of a candidate, or the path of the new
one cannot be followed. -/
inductive Barred (directory : Path) (yaml : Bool) (t : Tree) : Prop where
  | occupied {name : String} (hname : name ∈ candidates)
      (h : t.node? (directory.place ++ [name]) ≠ none) : Barred directory yaml t
  | astray (h : ∀ s, t.spot (newPath directory yaml) ≠ .ok s) : Barred directory yaml t

theorem node?_of_not_barred (h : ¬ Barred directory yaml t) (hname : name ∈ candidates) :
    t.node? (directory.place ++ [name]) = none := by
  by_contra hnode
  exact h (.occupied hname hnode)

theorem node?_newPath_of_not_barred (h : ¬ Barred directory yaml t) :
    t.node? (newPath directory yaml).place = none :=
  place_newPath directory yaml ▸ node?_of_not_barred h (newFile_mem yaml)

theorem spot_of_not_barred (h : ¬ Barred directory yaml t) :
    t.spot (newPath directory yaml) = .ok (t.spotAt (newPath directory yaml).place) := by
  by_contra hspot
  exact h (.astray fun s hs => hspot (spot_eq hs ▸ hs))

theorem barred_of_exists? (hq : q ∈ candidatePaths directory) (h : t.exists? q) :
    Barred directory yaml t := by
  obtain ⟨name, hname, rfl⟩ := mem_candidatePaths.1 hq
  cases hfind : t.find (directory.join ⟨name⟩) with
  | error e => simp [exists?, hfind, Except.toOption] at h
  | ok found =>
      have hnode := (find_eq hfind).2
      rw [place_join_name directory (isName_of_mem_candidates name hname)] at hnode
      exact .occupied hname (by simp [hnode])

/-- Where the path of a new configuration can be followed, no candidate is missed. -/
theorem not_barred_of_spot {spot : Spot} (hspot : t.spot (newPath directory yaml) = .ok spot)
    (hnone : (candidatePaths directory).find? t.exists? = none) : ¬ Barred directory yaml t := by
  intro h
  cases h with
  | @occupied name hname hnode =>
      rw [← place_join_name directory (isName_of_mem_candidates name hname)] at hnode
      have hexists := (exists?_iff_of_spot (spot_candidate hspot hname)).2 hnode
      exact List.find?_eq_none.1 hnone _ (mem_candidatePaths.2 ⟨name, hname, rfl⟩) hexists
  | astray hastray => exact hastray spot hspot

/-- What may come of making a configuration. -/
inductive Initiation (directory : Path) (yaml : Bool) (s : Session) :
    Except Failure Path × Session → Prop where
  /-- Nothing is done. -/
  | refused (h : Barred directory yaml s.tree) (e : Failure) :
      Initiation directory yaml s (.error e, s)
  /-- The file is written. -/
  | made (h : ¬ Barred directory yaml s.tree) :
      Initiation directory yaml s (.ok (newPath directory yaml), { s with
        tree := s.tree.put (newPath directory yaml).place (.file (.text (newFile yaml).2)) })

theorem initiation (directory : Path) (yaml : Bool) (s : Session) :
    Initiation directory yaml s ((init directory yaml).run s) := by
  cases hfind : (candidatePaths directory).find? s.tree.exists? with
  | some q =>
      rw [run_init_of_some hfind]
      exact .refused (barred_of_exists? (List.mem_of_find?_eq_some hfind) (List.find?_some hfind)) _
  | none =>
      rw [run_init_of_none hfind]
      cases hspot : s.tree.spot (newPath directory yaml) with
      | error e =>
          have hwrite : (FileM.write (newPath directory yaml) (.text (newFile yaml).2)).run s.tree =
              (.error e, s.tree) := by simp only [FileM.write, FileM.change, ExceptT.run, hspot]
          rw [hwrite]
          exact .refused (.astray (by simp [hspot])) _
      | ok spot =>
          have hfree := not_barred_of_spot hspot hfind
          rw [FileM.run_write_of_spot hspot (not_directory (node?_newPath_of_not_barred hfree))]
          exact .made hfree

theorem exists_error_of_barred (h : Barred directory yaml s.tree) :
    ∃ e, (init directory yaml).run s = (.error e, s) := by
  have hcases := initiation directory yaml s
  cases hrun : (init directory yaml).run s with
  | mk r s' =>
      rw [hrun] at hcases
      cases hcases with
      | refused _ e => exact ⟨e, rfl⟩
      | made hfree => exact absurd h hfree

/-! ### The configuration that is found -/

theorem ofJsonText_initial : ofJsonText initial.toJsonText = .ok initial :=
  Json.all_pretty (restores (d := 122) ⟨List.forall_mem_nil _, List.forall_mem_nil _⟩
    (List.forall_mem_nil _))

theorem ofYamlText?_initialYaml : ofYamlText? initialYaml = some initial := by
  decide +kernel

/-- The initial configuration is read from a file that holds its text. -/
theorem ofFile_newFile (hext : p.extension? = some (if yaml then "yaml" else "json"))
    (hread : t.readText p = .ok (newFile yaml).2) : ofFile t p = .ok initial := by
  have hcheck : check initial = .ok initial := rfl
  cases yaml with
  | false => exact (ofFile_eq_ok_iff hext).2 ⟨_, hread, ofJsonText_initial, hcheck⟩
  | true =>
      have hyaml : ofYamlText? (newFile true).2 = some initial := ofYamlText?_initialYaml
      unfold ofFile textOf
      simp only [hext, hread, Except.mapError, bind, Except.bind, hyaml, hcheck, if_true]

theorem discover_eq_ok (hp : p ∈ candidatePaths directory) (hfile : t.isFile p)
    (honly : ∀ q ∈ candidatePaths directory, t.isFile q → q = p) : discover t directory = .ok p := by
  unfold discover
  cases hfind : (candidatePaths directory).find? t.isFile with
  | none => exact absurd hfile (List.find?_eq_none.1 hfind p hp)
  | some q => rw [honly q (List.mem_of_find?_eq_some hfind) (List.find?_some hfind)]

theorem extension?_newPath {s : Spot} (h : t.spot (newPath directory yaml) = .ok s)
    (hs : s.node ≠ some .directory) :
    (newPath directory yaml).extension? = some (if yaml then "yaml" else "json") := by
  rw [extension?, name?_of_spot h hs (place_newPath directory yaml)]
  cases yaml <;> decide

/-- A new configuration where there was none is the one that is found, and it is the initial one. -/
theorem load_of_not_barred (h : ¬ Barred directory yaml t) :
    load (t.put (newPath directory yaml).place (.file (.text (newFile yaml).2))) none directory =
      .ok (initial, newPath directory yaml) := by
  have hplace := place_newPath directory yaml
  have hnone := node?_newPath_of_not_barred h
  have hadds := adds_put hnone (.text (newFile yaml).2)
  have hnot := not_directory hnone
  generalize ht' : t.put (newPath directory yaml).place (.file (.text (newFile yaml).2)) = t' at hadds ⊢
  have hfind : t'.find (newPath directory yaml) =
      .ok ((newPath directory yaml).place, .file (.text (newFile yaml).2)) := by
    subst ht'
    exact find_of_spot (spot_of_directories (fun _ => directory_put hnot _) (spot_of_not_barred h))
      (node?_put_self hnot)
  have hext := extension?_newPath (spot_of_find hfind) (by simp [spotAt, (find_eq hfind).2])
  have hfile := ofFile_newFile hext (readText_eq_ok_iff.2 hfind)
  have hdiscover : discover t' directory = .ok (newPath directory yaml) := by
    refine discover_eq_ok (mem_candidatePaths.2 ⟨_, newFile_mem yaml, rfl⟩)
      (isFile_iff.2 ⟨_, hfind⟩) fun q hq hfile => ?_
    obtain ⟨name, hname, rfl⟩ := mem_candidatePaths.1 hq
    obtain ⟨c, hc⟩ := isFile_iff.1 hfile
    have hnode := (find_eq hc).2
    have hjoin := place_join_name directory (isName_of_mem_candidates name hname)
    by_cases he : (directory.join ⟨name⟩).place = (newPath directory yaml).place
    · rw [hjoin, hplace] at he
      rw [List.singleton_inj.1 (List.append_cancel_left he), newPath]
    · rw [hadds.kept _ he, hjoin, node?_of_not_barred h hname] at hnode
      cases hnode
  rw [load]
  simp only [bind, Except.bind, pure, Except.pure, hdiscover, hfile]

/-! ### One configuration after the other -/

/-- What is left of a session after configurations are made in the given formats. -/
def afterInits (directory : Path) (formats : List Bool) (s : Session) : Session :=
  formats.foldl (fun s yaml => ((init directory yaml).run s).2) s

/-- Where a candidate is, nothing changes however often configurations are made. -/
theorem afterInits_of_occupied (hname : name ∈ candidates)
    (h : s.tree.node? (directory.place ++ [name]) ≠ none) (formats : List Bool) :
    afterInits directory formats s = s := by
  induction formats with
  | nil => rfl
  | cons yaml formats ih =>
      have hbarred : Barred directory yaml s.tree := .occupied hname h
      obtain ⟨e, hrun⟩ := exists_error_of_barred hbarred
      rw [afterInits, List.foldl_cons, hrun]
      exact ih

/-- **A configuration is made once.** Making one fails and leaves everything as it is, or it adds one
file. It fails if something stands under the name of a candidate, be it a file or a directory, or if the
new path cannot be followed, and for no other reason. A new configuration is the one that is found in the
directory, it is the initial one, and no other is made after it in any format. -/
theorem init_is_discovered (directory : Path) (yaml : Bool) (s : Session) :
    ((Barred directory yaml s.tree ∧ ∃ e, (init directory yaml).run s = (.error e, s)) ∨
      (¬ Barred directory yaml s.tree ∧ ∃ tree,
        Tree.Adds (directory.place ++ [(newFile yaml).1]) s.tree tree ∧
        (init directory yaml).run s = (.ok (newPath directory yaml), { s with tree }))) ∧
    ((∃ name ∈ candidates, s.tree.node? (directory.place ++ [name]) ≠ none) →
      ∃ e, (init directory yaml).run s = (.error e, s)) ∧
    ∀ p s', (init directory yaml).run s = (.ok p, s') →
      load s'.tree none directory = .ok (initial, p) ∧
      ∀ formats yaml', ∃ e, (init directory yaml').run (afterInits directory formats s') =
        (.error e, s') := by
  have hcases := initiation directory yaml s
  have hadds : ¬ Barred directory yaml s.tree →
      Tree.Adds (directory.place ++ [(newFile yaml).1]) s.tree
        (s.tree.put (newPath directory yaml).place (.file (.text (newFile yaml).2))) := fun h =>
    place_newPath directory yaml ▸ adds_put (node?_newPath_of_not_barred h) _
  refine ⟨?_, fun ⟨name, hname, h⟩ => exists_error_of_barred (.occupied hname h),
    fun p s' hrun => ?_⟩
  · cases hrun : (init directory yaml).run s with
    | mk r s' =>
        rw [hrun] at hcases
        cases hcases with
        | refused h e => exact .inl ⟨h, e, rfl⟩
        | made h => exact .inr ⟨h, _, hadds h, rfl⟩
  · rw [hrun] at hcases
    cases hcases with
    | made h =>
        refine ⟨load_of_not_barred h, fun formats yaml' => ?_⟩
        have hpresent := (hadds h).present
        rw [afterInits_of_occupied (newFile_mem yaml) hpresent]
        exact exists_error_of_barred (.occupied (newFile_mem yaml) hpresent)

/-- A project with a directory under the name of a stylesheet, and another one in which a directory has
the name of a candidate. -/
def projects : Session where
  tree := ⟨.ofList [(["w"], .directory), (["w", "src"], .directory),
    (["w", "valcss-main.css"], .directory), (["w", "config.yaml"], .file (.text "files: []")),
    (["v"], .directory), (["v", "valcss.config.yml"], .directory)]⟩
  report := []
  time := ""

theorem init_is_discovered_projects :
    (∃ s', (init ⟨"/w/./src/.."⟩ true).run projects =
        (.ok ⟨"/w/./src/../valcss.config.yaml"⟩, s') ∧
      load s'.tree none ⟨"/w/./src/.."⟩ = .ok (initial, ⟨"/w/./src/../valcss.config.yaml"⟩) ∧
      ∃ e, (init ⟨"/w/./src/.."⟩ false).run (afterInits ⟨"/w/./src/.."⟩ [true, false] s') =
        (.error e, s')) ∧
    projects.tree.node? ["v", "valcss.config.yml"] ≠ none ∧
      ∃ e, (init ⟨"v/"⟩ false).run projects = (.error e, projects) := by
  have hmade : ((init ⟨"/w/./src/.."⟩ true).run projects).1 =
      .ok ⟨"/w/./src/../valcss.config.yaml"⟩ := rfl
  have hrun : (init ⟨"/w/./src/.."⟩ true).run projects = (.ok ⟨"/w/./src/../valcss.config.yaml"⟩,
    ((init ⟨"/w/./src/.."⟩ true).run projects).2) := Prod.ext hmade rfl
  obtain ⟨hload, hagain⟩ := (init_is_discovered ⟨"/w/./src/.."⟩ true projects).2.2 _ _ hrun
  have hoccupied : projects.tree.node? ["v", "valcss.config.yml"] ≠ none := by decide
  have hplace : (Path.mk "v/").place = ["v"] := by decide
  refine ⟨⟨_, hrun, hload, hagain _ _⟩, hoccupied, ?_⟩
  exact (init_is_discovered ⟨"v/"⟩ false projects).2.1
    ⟨"valcss.config.yml", by decide, hplace ▸ hoccupied⟩

end Config

end UtilityCss
