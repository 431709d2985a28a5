import UtilityCss.Proofs.File.Footprint
import Mathlib.Data.List.TakeWhile

/-!
# File operations done again

Whether paths can be followed depends on the directories of a tree alone, so what was done once can be
done again wherever the directories are the same. A path along which directories were made leads to a
directory (`FileM.isDirectory_of_makeDirectories`), and making them again does nothing
(`FileM.run_makeDirectories_of_isDirectory`); a file that was replaced once can be replaced again
(`FileM.exists_run_replace`). Replacing files that are there keeps the directories and adds nothing
(`Tree.Overwrites`).
-/

namespace UtilityCss

namespace Tree

variable {t t₁ t' : Tree} {p : Path} {place : Place} {s s' : Spot}
  {pieces before blanks : List (List Char)}

/-- Two trees have directories at the same places. -/
def SameDirectories (t t' : Tree) : Prop :=
  ∀ place, t'.node? place = some .directory ↔ t.node? place = some .directory

theorem SameDirectories.symm (h : SameDirectories t t') : SameDirectories t' t :=
  fun place => (h place).symm

theorem SameDirectories.trans (h : SameDirectories t t₁) (h' : SameDirectories t₁ t') :
    SameDirectories t t' :=
  fun place => (h' place).trans (h place)

theorem SameDirectories.spot (h : SameDirectories t t') (hs : t.spot p = .ok s) :
    t'.spot p = .ok (t'.spotAt p.place) :=
  spot_of_directories (fun place => (h place).2) hs

theorem sameDirectories_put (hd : t.node? place ≠ some .directory) (c : Content) :
    SameDirectories t (t.put place (.file c)) := by
  intro other
  by_cases hp : other = place
  · rw [hp, node?_put_self hd]
    exact iff_of_false nofun hd
  · rw [node?_put_of_ne hp]

theorem sameDirectories_clear (hd : t.node? place ≠ some .directory) :
    SameDirectories t (t.clear place) := by
  intro other
  by_cases hp : other = place
  · rw [hp, node?_clear_self hd]
    exact iff_of_false nofun hd
  · rw [node?_clear_of_ne hp]

/-- What a path leads to is the same where the directories are, if the same stands there. -/
theorem SameDirectories.toOption_find (h : SameDirectories t t')
    (hp : ∀ s, t.spot p = .ok s → t'.node? p.place = t.node? p.place) :
    (t'.find p).toOption = (t.find p).toOption := by
  unfold find
  cases hs : t.spot p with
  | ok s =>
      rw [h.spot hs, spot_eq hs, spotAt, spotAt, hp s hs]
  | error e =>
      cases hs' : t'.spot p with
      | ok s' =>
          rw [h.symm.spot hs'] at hs
          cases hs
      | error e' => rfl

theorem isDirectory_iff : t.isDirectory p ↔ t.find p = .ok (p.place, .directory) := by
  unfold isDirectory
  constructor
  · intro h
    split at h
    · rename_i hfind
      rw [hfind, (find_eq hfind).1]
    · cases h
  · intro h
    rw [h]

theorem isFile_iff : t.isFile p ↔ ∃ c, t.find p = .ok (p.place, .file c) := by
  unfold isFile
  constructor
  · intro h
    split at h
    · rename_i c hfind
      exact ⟨c, by rw [hfind, (find_eq hfind).1]⟩
    · cases h
  · rintro ⟨c, h⟩
    rw [h]

theorem readText_eq_ok_iff {html : String} :
    t.readText p = .ok html ↔ t.find p = .ok (p.place, .file (.text html)) := by
  unfold readText
  constructor
  · intro h
    split at h
    · cases h
    · cases h
    · rename_i hfind
      cases h
      rw [hfind, (find_eq hfind).1]
    · cases h
  · intro h
    rw [h]

theorem isDirectory_of_directories (h : t.isDirectory p)
    (hdirs : ∀ place, t.node? place = some .directory → t'.node? place = some .directory) :
    t'.isDirectory p := by
  rw [isDirectory_iff] at h ⊢
  exact find_of_spot (spot_of_directories hdirs (spot_of_find h)) (hdirs _ (find_eq h).2)

/-! ### Slashes at the end of a path -/

theorem followAll_append (t : Tree) (s : Spot) (before pieces : List (List Char)) :
    t.followAll s (before ++ pieces) = match t.followAll s before with
      | .ok s'   => t.followAll s' pieces
      | .error e => .error e := by
  induction before generalizing s with
  | nil => rfl
  | cons piece before ih =>
      rw [List.cons_append, followAll, followAll]
      cases t.follow s piece with
      | ok s' => exact ih s'
      | error e => rfl

/-- Pieces that lead nowhere are followed in a directory. -/
theorem followAll_blanks (hb : ∀ piece ∈ blanks, Path.leads piece = false)
    (hs : s.node = some .directory) : t.followAll s blanks = .ok s := by
  induction blanks with
  | nil => rfl
  | cons piece blanks ih =>
      obtain ⟨hpiece, hlater⟩ := List.forall_mem_cons.1 hb
      have hone : t.follow s piece = .ok s := by
        simp only [follow, hs, hpiece, Bool.not_false, if_true]
      rw [followAll, hone]
      exact ih hlater

theorem eq_of_followAll_blanks (hb : ∀ piece ∈ blanks, piece = [])
    (h : t.followAll s blanks = .ok s') : s' = s := by
  induction blanks generalizing s with
  | nil => exact (Except.ok.inj h).symm
  | cons piece blanks ih =>
      obtain ⟨rfl, hlater⟩ := List.forall_mem_cons.1 hb
      rw [followAll] at h
      split at h
      · rename_i s₁ hone
        unfold follow at hone
        split at hone
        · cases hone
        · cases hone
        · cases hone
          exact ih hlater h
      · cases h

/-- Slashes at the end of a path are empty pieces. -/
theorem exists_blanks (p : Path) : ∃ blanks : List (List Char), (∀ piece ∈ blanks, piece = []) ∧
    p.pieces = FileM.namePieces p ++ blanks := by
  refine ⟨(p.pieces.reverse.takeWhile (· = [])).reverse, fun piece h => ?_, ?_⟩
  · simpa using List.mem_takeWhile_imp (List.mem_reverse.1 h)
  · rw [FileM.namePieces, ← List.reverse_append, List.takeWhile_append_dropWhile,
      List.reverse_reverse]

/-- A directory is found under its name with and without slashes behind it. -/
theorem isDirectory_iff_namePieces : t.isDirectory p ↔ pathError? p = none ∧
    t.followAll ⟨[], some .directory⟩ (FileM.namePieces p) = .ok ⟨p.place, some .directory⟩ := by
  obtain ⟨blanks, hb, hp⟩ := exists_blanks p
  rw [isDirectory_iff]
  constructor
  · intro h
    have hspot := spot_of_find h
    rw [spotAt, (find_eq h).2] at hspot
    unfold spot at hspot
    split at hspot
    · cases hspot
    rename_i herror
    refine ⟨herror, ?_⟩
    rw [hp, followAll_append] at hspot
    split at hspot
    · rename_i s' hnames
      rw [hnames, eq_of_followAll_blanks hb hspot]
    · cases hspot
  · rintro ⟨herror, hnames⟩
    have hspot : t.spot p = .ok ⟨p.place, some .directory⟩ := by
      rw [spot, herror]
      simp only
      rw [hp, followAll_append, hnames]
      exact followAll_blanks (fun piece hpiece => hb piece hpiece ▸ rfl) rfl
    exact find_of_spot hspot (congrArg Spot.node (spot_eq hspot)).symm

end Tree

namespace FileM
open UtilityCss.Tree

variable {t t' u : Tree} {p source target : Path} {text : String}

/-! ### Directories -/

theorem isDirectory_of_makeDirectory (h : (makeDirectory p).run t = (.ok (), t')) :
    t'.isDirectory p := by
  rcases change_cases (m := makeDirectory p) rfl t with ⟨e, he⟩ | ⟨t₁, hf, hrun⟩
  · rw [h] at he
    cases he
  rw [h] at hrun
  cases hrun
  split at hf
  · cases hf
  rename_i herror
  split at hf
  · cases hf
  · cases hf
  · rename_i place hfollow
    cases hf
    have hspot := followAll_eq t.isReached_root hfollow
    rw [Path.place_namePieces] at hspot
    obtain ⟨rfl, hnone⟩ := Spot.mk.inj hspot
    have hnot : t.node? p.place ≠ some .directory := by
      rw [← hnone]
      nofun
    have hdirs := fun q => directory_put (q := q) hnot .directory
    have hnames := followAll_of_directories t.isReached_root hdirs hfollow
    rw [Path.place_namePieces] at hnames
    refine isDirectory_iff_namePieces.2 ⟨herror, hnames.trans ?_⟩
    rw [spotAt, node?_put_self hnot]

theorem run_makeDirectory_of_isDirectory (h : t.isDirectory p) :
    (makeDirectory p).run t = (.error .alreadyExists, t) := by
  obtain ⟨herror, hnames⟩ := isDirectory_iff_namePieces.1 h
  simp only [makeDirectory, change, ExceptT.run, herror, hnames]

/-- A directory is not made if that fails. -/
theorem eq_of_makeDirectory_error {e : FileError} {t₁ : Tree}
    (h : (makeDirectory p).run t = (.error e, t₁)) : t₁ = t := by
  rcases change_cases (m := makeDirectory p) rfl t with ⟨e', he⟩ | ⟨t', -, hrun⟩
  · rw [h] at he
    cases he
    rfl
  · rw [h] at hrun
    cases hrun

/-- A directory has been made, or what is done instead finds it. -/
theorem isDirectory_of_makeOrElse {orElse : FileError → Tree → FileM Unit}
    (helse : ∀ e, (orElse e t).run t = (.ok (), t') → t'.isDirectory p)
    (h : (match (makeDirectory p).run t with
      | (.ok (), t₁)   => set t₁
      | (.error e, t₁) => orElse e t₁ : FileM Unit).run t = (.ok (), t')) : t'.isDirectory p := by
  split at h
  · rename_i t₁ hrun
    cases h
    exact isDirectory_of_makeDirectory hrun
  · rename_i hrun
    rw [eq_of_makeDirectory_error hrun] at h
    exact helse _ h

theorem isDirectory_of_unless {e : FileError}
    (h : (unless t.isDirectory p do throw e : FileM Unit).run t = (.ok (), t')) :
    t'.isDirectory p := by
  split at h
  · rename_i hd
    cases h
    exact hd
  · cases h

/-- A path along which directories were made leads to one. -/
theorem isDirectory_of_makeDirectories (hp : p.text.isEmpty = false)
    (h : (makeDirectories p).run t = (.ok (), t')) : t'.isDirectory p := by
  unfold makeDirectories at h
  generalize p.pieces.length = levels at h
  unfold makeDirectoriesUp at h
  rw [if_neg (by simp [hp])] at h
  refine isDirectory_of_makeOrElse (fun e helse => ?_) h
  split at helse
  · exact isDirectory_of_unless helse
  split at helse
  · rw [run_bind] at helse
    split at helse
    · have hunless : ∀ t₁ e, (unless t₁.isDirectory p do throw e : FileM Unit).run t₁ =
          (.ok (), t') → t'.isDirectory p := fun _ _ => isDirectory_of_unless
      exact isDirectory_of_makeOrElse (hunless _) helse
    · cases helse
  · cases helse

/-- Directories that are there are not made again. -/
theorem run_makeDirectories_of_isDirectory (h : t.isDirectory p) :
    (makeDirectories p).run t = (.ok (), t) := by
  have hmake := run_makeDirectory_of_isDirectory h
  unfold makeDirectories
  generalize p.pieces.length = levels
  unfold makeDirectoriesUp
  split
  · rfl
  · rw [run_bind]
    show ExceptT.run (match (makeDirectory p).run t with
      | (.ok (), t) => set t
      | (.error e, t) => _ : FileM Unit) t = _
    rw [hmake]
    show ExceptT.run (if t.isDirectory p = true then pure () else _ : FileM Unit) t = _
    rw [if_pos h]
    rfl

/-! ### Files -/

theorem run_write_of_spot {s : Spot} (hs : t.spot p = .ok s)
    (hd : t.node? p.place ≠ some .directory) (c : Content) :
    (write p c).run t = (.ok (), t.put p.place (.file c)) := by
  simp only [write, change, ExceptT.run, hs, spot_eq hs, spotAt]

theorem canBeNamed_of_rename (h : (rename source target).run t = (.ok (), t')) :
    CanBeNamed t target := by
  rcases change_cases (m := rename source target) rfl t with ⟨e, he⟩ | ⟨t₁, hf, -⟩
  · rw [h] at he
    cases he
  split at hf
  · cases hf
  · cases hf
  split at hf
  · cases hf
  rename_i hname
  split at hf
  · cases hf
  rename_i hslash
  split at hf
  · cases hf
  · cases hf
  · rename_i place node hdir hs
    obtain ⟨rfl, rfl⟩ := Spot.mk.inj (spot_eq hs)
    exact ⟨by simpa using hname, by simpa using hslash, hs, hdir⟩

/-- A file that was replaced once can be replaced again, there or not. -/
theorem exists_run_replace (h : (replace p text).run t = (.ok (), t')) (hdirs : SameDirectories t u)
    (other : String) : ∃ u', (replace p other).run u = (.ok (), u') := by
  rcases write_cases p.draft (.text text) t with ⟨e, he⟩ | ⟨hwrite, hd, hs⟩
  · rw [run_replace_of_error he] at h
    cases h
  rw [run_replace_of_ok hwrite] at h
  have hname := canBeNamed_of_rename h
  have hd' : u.node? p.draft.place ≠ some .directory := mt (hdirs _).1 hd
  have hput := sameDirectories_put hd' (.text other)
  have hdrafts := (sameDirectories_put hd (.text text)).symm.trans (hdirs.trans hput)
  have hname' : CanBeNamed (u.put p.draft.place (.file (.text other))) p :=
    ⟨hname.endsInName, hname.noSlash, hdrafts.spot hname.followed, mt (hdrafts _).1 hname.free⟩
  have hdraft := find_of_spot (hput.spot (hdirs.spot hs)) (node?_put_self hd')
  rw [run_replace_of_ok (run_write_of_spot (hdirs.spot hs) hd' _)]
  exact ⟨_, run_rename_of_canBeNamed hdraft hname'⟩

/-- A file that is replaced is under its path. -/
theorem spot_of_replace (h : (replace p text).run t = (.ok (), t')) :
    t.spot p = .ok (t.spotAt p.place) := by
  rcases write_cases p.draft (.text text) t with ⟨e, he⟩ | ⟨hwrite, hd, -⟩
  · rw [run_replace_of_error he] at h
    cases h
  · rw [run_replace_of_ok hwrite] at h
    exact (sameDirectories_put hd _).symm.spot (canBeNamed_of_rename h).followed

end FileM

namespace Tree

/-- Files have got other texts or are gone: directories are as before, and nothing is new. -/
structure Overwrites (t t' : Tree) : Prop where
  directories : SameDirectories t t'
  absent      : ∀ place, t.node? place = none → t'.node? place = none

variable {t t₁ t' : Tree} {p : Path} {text : String} {c : Content}

theorem Overwrites.refl (t : Tree) : Overwrites t t := ⟨fun _ => Iff.rfl, fun _ h => h⟩

theorem Overwrites.trans (h : Overwrites t t₁) (h' : Overwrites t₁ t') : Overwrites t t' :=
  ⟨h.directories.trans h'.directories, fun place hp => h'.absent place (h.absent place hp)⟩

theorem sameDirectories_of_replace (h : (FileM.replace p text).run t = (.ok (), t')) :
    SameDirectories t t' := by
  have hcases := FileM.replacement p text t
  rw [h] at hcases
  cases hcases with
  | moved hd hp =>
      have hput := sameDirectories_put hd (.text text)
      have hclear := hput.trans (sameDirectories_clear (mt (hput _).1 hd))
      exact hclear.trans (sameDirectories_put (mt (hclear _).1 hp) (.text text))

/-- Nothing is left of the draft of a file that was replaced. -/
theorem node?_draft_of_replace (h : (FileM.replace p text).run t = (.ok (), t')) :
    t'.node? p.draft.place = none := by
  refine (replaces_of_replace h).1.drafts p List.mem_cons_self fun q hq => ?_
  rw [List.mem_singleton.1 hq]
  exact p.place_draft_ne

theorem node?_of_replace (h : (FileM.replace p text).run t = (.ok (), t')) {place : Place}
    (hp : place ≠ p.place) (hd : place ≠ p.draft.place) : t'.node? place = t.node? place := by
  refine (replaces_of_replace h).1.kept place fun q hq => ?_
  rw [List.mem_singleton.1 hq]
  exact ⟨hp, hd⟩

/-- A file that is there is replaced. -/
theorem overwrites_of_replace (hf : t.node? p.place = some (.file c))
    (h : (FileM.replace p text).run t = (.ok (), t')) : Overwrites t t' := by
  refine ⟨sameDirectories_of_replace h, fun place hnone => ?_⟩
  have hplace : place ≠ p.place := by
    rintro rfl
    rw [hf] at hnone
    cases hnone
  by_cases hplace' : place = p.draft.place
  · rw [hplace', node?_draft_of_replace h]
  · rw [node?_of_replace h hplace hplace', hnone]

end Tree

end UtilityCss
