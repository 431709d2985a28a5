import UtilityCss.Proofs.File.Alike
import UtilityCss.Proofs.File.Place
import Mathlib.Data.List.Induction
import Mathlib.Logic.Relation

/-!
# What file operations leave

A file is replaced through a draft beside it, which is written first and then moved over it. This
comes to one of three things (`FileM.replacement`): nothing is done; the draft is written and stays,
since it cannot be moved; or it is moved, and nothing stands at its place afterwards. The second does
not happen to a path that leads to a file (`FileM.replacement_of_isFile`). Files that are replaced one
after the other change their own places and empty those of their drafts (`Tree.Replaces`); making a
directory puts directories where nothing was, at the path or above it (`FileM.grows_makeDirectories`).
-/

namespace UtilityCss

namespace Path

/-- The path under which a file is written before it is moved to its own. -/
def draft (p : Path) : Path := p.extend ".tmp"

/-- One path leads to a directory on the way of another. -/
def IsAbove (q p : Path) : Prop := Relation.TransGen (fun q p : Path => p.parent? = some q) q p

theorem place_draft_ne (p : Path) : p.draft.place ≠ p.place :=
  place_extend_ne (by decide) (by decide) p

/-! ### Paths to files -/

theorem leads_of_follow {t : Tree} {s s' : Tree.Spot} {piece : List Char}
    (h : t.follow s piece = .ok s') (hs : s'.node ≠ some .directory) :
    leads piece ∧ piece ≠ ['.', '.'] := by
  unfold Tree.follow at h
  split at h
  · cases h
  · cases h
  · rename_i hdirectory
    split at h
    · cases h
      exact absurd hdirectory hs
    split at h
    · cases h
      exact absurd rfl hs
    · rename_i hleads hup
      exact ⟨by simpa using hleads, hup⟩

theorem followAll_concat {t : Tree} {s s' : Tree.Spot} {before : List (List Char)}
    {last : List Char} (h : t.followAll s (before ++ [last]) = .ok s') :
    ∃ s₁, t.follow s₁ last = .ok s' := by
  induction before generalizing s with
  | nil =>
      rw [List.nil_append, Tree.followAll] at h
      split at h
      · rename_i s₁ hone
        cases h
        exact ⟨s, hone⟩
      · cases h
  | cons piece before ih =>
      rw [List.cons_append, Tree.followAll] at h
      split at h
      · exact ih h
      · cases h

theorem pieces_ne_nil (p : Path) : p.pieces ≠ [] := List.splitOn_ne_nil _ _

/-- A path to something other than a directory ends in a name. -/
theorem lastPiece_of_spot {t : Tree} {p : Path} {s : Tree.Spot} (h : t.spot p = .ok s)
    (hs : s.node ≠ some .directory) :
    ∃ before last, p.pieces = before ++ [last] ∧ leads last ∧ last ≠ ['.', '.'] := by
  unfold Tree.spot at h
  split at h
  · cases h
  · have hp := (List.dropLast_concat_getLast p.pieces_ne_nil).symm
    rw [hp] at h
    obtain ⟨s₁, hlast⟩ := followAll_concat h
    exact ⟨_, _, hp, leads_of_follow hlast hs⟩

/-- A path is its start and the text behind it. -/
theorem chars_append_split (s : List Char) :
    (PathStart.split s).1.chars ++ (PathStart.split s).2 = s := by
  unfold PathStart.split
  split <;> rfl

/-- A path that ends in a name does not end in a slash. -/
theorem hasEndSlash_eq_false {p : Path} {before : List (List Char)} {last : List Char}
    (hp : p.pieces = before ++ [last]) (h : leads last) : p.hasEndSlash = false := by
  have hlast : last ≠ [] := by
    rintro rfl
    cases h
  have hempty : ∀ pieces, p.pieces ≠ pieces ++ [[]] := by
    intro pieces e
    rw [hp] at e
    exact hlast (List.singleton_inj.1 (List.append_inj' e rfl).2)
  have hrest : (PathStart.split p.text.toList).2 ≠ [] := fun e => hempty [] (by rw [pieces, e]; rfl)
  have hslash : p.text.toList.getLast? ≠ some '/' := by
    rw [← chars_append_split p.text.toList, List.getLast?_append_of_ne_nil _ hrest]
    intro hslash
    obtain ⟨s, hs⟩ := List.getLast?_eq_some_iff.1 hslash
    refine hempty (splitPieces s) ?_
    rw [pieces, hs]
    exact List.splitOn_append_cons_self (a := '/') s []
  simpa [hasEndSlash] using hslash

/-- A path that ends in a name can be given to something new. -/
theorem endsInName_of_lastPiece {p : Path} {before : List (List Char)} {last : List Char}
    (hp : p.pieces = before ++ [last]) (h : leads last) (hup : last ≠ ['.', '.']) :
    FileM.endsInName p := by
  have hne : last ≠ [] ∧ last ≠ ['.'] := by simpa [leads] using h
  have hnames : FileM.namePieces p = before ++ [last] := by
    simp [FileM.namePieces, hp, hne.1]
  simp [FileM.endsInName, hnames, hne.2, hup]

/-- Slashes at the end of a path lead nowhere. -/
theorem place_namePieces (p : Path) : (FileM.namePieces p).foldl Place.visit [] = p.place := by
  have hall : ∀ l : List (List Char), ((l.reverse.dropWhile (· = [])).reverse).foldl Place.visit [] =
      l.foldl Place.visit [] := by
    intro l
    induction l using List.reverseRecOn with
    | nil => rfl
    | append_singleton l piece ih =>
        rw [List.reverse_concat, List.foldl_concat]
        by_cases hp : piece = []
        · subst hp
          rw [List.dropWhile_cons_of_pos (by simp), ih]
          rfl
        · rw [List.dropWhile_cons_of_neg (by simpa using hp), List.reverse_cons, List.reverse_reverse,
            List.foldl_concat]
  exact hall p.pieces

end Path

/-- One of the paths above a path leads to a place. -/
def Place.IsAbove (place : Place) (p : Path) : Prop := ∃ q : Path, q.IsAbove p ∧ place = q.place

namespace Tree

variable {t : Tree} {place : Place} {n : Node}

/-- What is put at a place stands there, if the place is not the root. -/
theorem node?_put_self (h : t.node? place ≠ some .directory) :
    (t.put place n).node? place = some n := by
  have hroot : place ≠ [] := by
    rintro rfl
    exact h rfl
  rw [node?_put, if_pos ⟨hroot, rfl⟩]

/-- A tree loses no directory where something is put in place of something else or nothing. -/
theorem directory_put (h : t.node? place ≠ some .directory) (n : Node) {q : Place}
    (hq : t.node? q = some .directory) : (t.put place n).node? q = some .directory := by
  have hne : q ≠ place := by
    rintro rfl
    exact h hq
  rw [node?_put_of_ne hne, hq]

theorem node?_clear_self (h : t.node? place ≠ some .directory) :
    (t.clear place).node? place = none := by
  have hroot : place ≠ [] := by
    rintro rfl
    exact h rfl
  rw [node?_clear, if_pos ⟨hroot, rfl⟩]

end Tree

namespace FileM

variable {t t' : Tree} {p q source target : Path} {c : Content} {text : String}

/-- A change is made, or nothing is done. -/
theorem change_cases {m : FileM Unit} {f : Tree → Except FileError Tree} (hm : m = change f)
    (t : Tree) :
    (∃ e, m.run t = (.error e, t)) ∨ ∃ t', f t = .ok t' ∧ m.run t = (.ok (), t') := by
  subst hm
  cases hf : f t with
  | ok t' => exact .inr ⟨t', rfl, by simp only [change, ExceptT.run, hf]⟩
  | error e => exact .inl ⟨e, by simp only [change, ExceptT.run, hf]⟩

/-- A file is written at its place, or nothing is done. -/
theorem write_cases (p : Path) (c : Content) (t : Tree) :
    (∃ e, (write p c).run t = (.error e, t)) ∨
      (write p c).run t = (.ok (), t.put p.place (.file c)) ∧
        t.node? p.place ≠ some .directory ∧ t.spot p = .ok (t.spotAt p.place) := by
  rcases change_cases (m := write p c) rfl t with h | ⟨t', hf, h⟩
  · exact .inl h
  refine .inr ?_
  split at hf
  · cases hf
  · cases hf
  · rename_i place node hdir hs
    cases hf
    obtain ⟨rfl, rfl⟩ := Tree.Spot.mk.inj (Tree.spot_eq hs)
    exact ⟨h, hdir, hs⟩

/-- A file is moved to its new place, or nothing is done. -/
theorem rename_cases (source target : Path) (t : Tree) :
    (∃ e, (rename source target).run t = (.error e, t)) ∨ ∃ c,
      (rename source target).run t =
        (.ok (), (t.clear source.place).put target.place (.file c)) ∧
      t.node? source.place = some (.file c) ∧ t.node? target.place ≠ some .directory := by
  rcases change_cases (m := rename source target) rfl t with h | ⟨t', hf, h⟩
  · exact .inl h
  refine .inr ?_
  split at hf
  · cases hf
  · cases hf
  · rename_i old c hsource
    obtain ⟨rfl, hc⟩ := Tree.find_eq hsource
    split at hf
    · cases hf
    split at hf
    · cases hf
    split at hf
    · cases hf
    · cases hf
    · rename_i place node hdir hs
      cases hf
      obtain ⟨rfl, rfl⟩ := Tree.Spot.mk.inj (Tree.spot_eq hs)
      exact ⟨c, h, hc, hdir⟩

/-- A file can be moved to a path that is the name of a file, there or not. -/
structure CanBeNamed (t : Tree) (p : Path) : Prop where
  endsInName : FileM.endsInName p
  noSlash    : p.hasEndSlash = false
  followed   : t.spot p = .ok (t.spotAt p.place)
  free       : t.node? p.place ≠ some .directory

theorem run_rename_of_canBeNamed {c : Content} (hs : t.find source = .ok (source.place, .file c))
    (h : CanBeNamed t target) :
    (rename source target).run t = (.ok (), (t.clear source.place).put target.place (.file c)) := by
  have hfree := h.free
  simp only [rename, change, ExceptT.run, hs, h.endsInName, h.noSlash, h.followed, Tree.spotAt,
    Bool.not_true, Bool.false_eq_true, if_false]

/-- A file is moved over another one. -/
theorem rename_of_files {c' : Content} (hs : t.find source = .ok (source.place, .file c))
    (ht : t.find target = .ok (target.place, .file c')) :
    (rename source target).run t = (.ok (), (t.clear source.place).put target.place (.file c)) := by
  have hspot := Tree.spot_of_find ht
  have hnode : t.node? target.place = some (.file c') := (Tree.find_eq ht).2
  obtain ⟨before, last, hp, hleads, hup⟩ :=
    Path.lastPiece_of_spot hspot (by simp [Tree.spotAt, hnode])
  exact run_rename_of_canBeNamed hs ⟨Path.endsInName_of_lastPiece hp hleads hup,
    Path.hasEndSlash_eq_false hp hleads, hspot, by simp [hnode]⟩

/-! ### Replacing a file -/

/-- What may come of replacing a file. -/
inductive Replacement (p : Path) (text : String) (t : Tree) : Except FileError Unit × Tree → Prop where
  /-- Nothing is done. -/
  | undone (e : FileError) : Replacement p text t (.error e, t)
  /-- The draft is written, and stays. -/
  | stranded (e : FileError) (hd : t.node? p.draft.place ≠ some .directory) :
      Replacement p text t (.error e, t.put p.draft.place (.file (.text text)))
  /-- The draft is written, and moved. -/
  | moved (hd : t.node? p.draft.place ≠ some .directory) (hp : t.node? p.place ≠ some .directory) :
      Replacement p text t (.ok (), ((t.put p.draft.place (.file (.text text))).clear
        p.draft.place).put p.place (.file (.text text)))

theorem node?_put_draft (t : Tree) (p : Path) (n : Node) :
    (t.put p.draft.place n).node? p.place = t.node? p.place :=
  Tree.node?_put_of_ne p.place_draft_ne.symm

theorem run_replace_of_error {e : FileError}
    (h : (write p.draft (.text text)).run t = (.error e, t')) :
    (replace p text).run t = (.error e, t') := by
  have hrun := run_bind (write p.draft (.text text)) (fun _ => rename p.draft p) t
  rw [h] at hrun
  exact hrun

theorem run_replace_of_ok (h : (write p.draft (.text text)).run t = (.ok (), t')) :
    (replace p text).run t = (rename p.draft p).run t' := by
  have hrun := run_bind (write p.draft (.text text)) (fun _ => rename p.draft p) t
  rw [h] at hrun
  exact hrun

theorem replacement (p : Path) (text : String) (t : Tree) :
    Replacement p text t ((replace p text).run t) := by
  rcases write_cases p.draft (.text text) t with ⟨e, he⟩ | ⟨hwrite, hd, -⟩
  · rw [run_replace_of_error he]
    exact .undone e
  rw [run_replace_of_ok hwrite]
  rcases rename_cases p.draft p (t.put p.draft.place (.file (.text text))) with
    ⟨e, he⟩ | ⟨c, hmove, hc, hp⟩
  · rw [he]
    exact .stranded e hd
  · rw [node?_put_draft] at hp
    rw [Tree.node?_put_self hd] at hc
    cases hc
    rw [hmove]
    exact .moved hd hp

/-- The draft of a file is moved over it, if it can be written. -/
theorem replacement_of_isFile (text : String) (hf : t.isFile p) :
    (∃ e, (replace p text).run t = (.error e, t)) ∨ ∃ t', (replace p text).run t = (.ok (), t') := by
  rcases write_cases p.draft (.text text) t with ⟨e, he⟩ | ⟨hwrite, hd, hs⟩
  · exact .inl ⟨e, run_replace_of_error he⟩
  rw [run_replace_of_ok hwrite]
  refine .inr ?_
  -- both paths are followed as before, since no directory was lost
  have hdirs := fun q => Tree.directory_put (q := q) hd (.file (.text text))
  unfold Tree.isFile at hf
  split at hf
  · rename_i place c hp
    obtain ⟨rfl, hnode⟩ := Tree.find_eq hp
    have hdraft := Tree.find_of_spot (Tree.spot_of_directories hdirs hs)
      (Tree.node?_put_self hd)
    have htarget := Tree.find_of_spot (Tree.spot_of_directories hdirs (Tree.spot_of_find hp))
      (show _ = some (.file c) by rw [node?_put_draft, hnode])
    exact ⟨_, rename_of_files hdraft htarget⟩
  · cases hf

end FileM

namespace Tree

variable {t t₁ t' : Tree} {p q : Path} {files later : List Path} {place : Place} {text : String}

/-- Files have been replaced, one after the other: they and their drafts aside everything is as
before, and nothing is left of a draft that is not one of the files. -/
structure Replaces (files : List Path) (t t' : Tree) : Prop where
  kept   : ∀ place, (∀ p ∈ files, place ≠ p.place ∧ place ≠ p.draft.place) →
    t'.node? place = t.node? place
  drafts : ∀ p ∈ files, (∀ q ∈ files, p.draft.place ≠ q.place) →
    t'.node? p.draft.place = none

theorem Replaces.refl (t : Tree) : Replaces [] t t :=
  ⟨fun _ _ => rfl, nofun⟩

theorem Replaces.trans (h : Replaces files t t₁) (h' : Replaces later t₁ t') :
    Replaces (files ++ later) t t' := by
  refine ⟨fun place hp => ?_, fun p hp hfiles => ?_⟩
  · rw [h'.kept place fun p hmem => hp p (List.mem_append_right _ hmem),
      h.kept place fun p hmem => hp p (List.mem_append_left _ hmem)]
  · by_cases hlater : ∃ q ∈ later, p.draft.place = q.draft.place
    · obtain ⟨q, hq, e⟩ := hlater
      rw [e]
      exact h'.drafts q hq fun r hr => e ▸ hfiles r (List.mem_append_right _ hr)
    · push Not at hlater
      rw [h'.kept _ fun q hq => ⟨hfiles q (List.mem_append_right _ hq), hlater q hq⟩]
      have hmem : p ∈ files := (List.mem_append.1 hp).resolve_right fun hl => hlater p hl rfl
      exact h.drafts p hmem fun q hq => hfiles q (List.mem_append_left _ hq)

/-- A file that is replaced stands at its place, and its draft is gone. -/
theorem replaces_of_replace (h : (FileM.replace p text).run t = (.ok (), t')) :
    Replaces [p] t t' ∧ t'.node? p.place = some (.file (.text text)) := by
  have hcases := FileM.replacement p text t
  rw [h] at hcases
  cases hcases with
  | moved hd hp =>
      refine ⟨⟨fun place hplace => ?_, fun q hq _ => ?_⟩, ?_⟩
      · obtain ⟨hne, hne'⟩ := hplace p List.mem_cons_self
        rw [node?_put_of_ne hne, node?_clear_of_ne hne', node?_put_of_ne hne']
      · rw [List.mem_singleton.1 hq, node?_put_of_ne p.place_draft_ne]
        exact node?_clear_self (by rw [node?_put_self hd]; nofun)
      · exact node?_put_self (by rwa [node?_clear_of_ne p.place_draft_ne.symm,
          FileM.node?_put_draft])

/-! ### Making directories -/

/-- Directories have been made where nothing was, at places that `allowed` admits. -/
def Grows (allowed : Place → Prop) (t t' : Tree) : Prop :=
  ∀ place, t'.node? place = t.node? place ∨
    allowed place ∧ t.node? place = none ∧ t'.node? place = some .directory

variable {allowed allowed' : Place → Prop}

theorem Grows.refl (t : Tree) : Grows allowed t t := fun _ => .inl rfl

theorem Grows.mono (h : Grows allowed t t') (ha : ∀ place, allowed place → allowed' place) :
    Grows allowed' t t' :=
  fun place => (h place).imp_right fun ⟨hp, hnode⟩ => ⟨ha place hp, hnode⟩

theorem Grows.directories (h : Grows allowed t t') (hd : t.node? place = some .directory) :
    t'.node? place = some .directory := by
  rcases h place with he | ⟨-, hnone, -⟩
  · rw [he, hd]
  · rw [hd] at hnone
    cases hnone

theorem Grows.trans (h : Grows allowed t t₁) (h' : Grows allowed t₁ t') : Grows allowed t t' := by
  intro place
  rcases h place with he | ⟨ha, hnone, hd⟩
  · rw [← he]
    exact h' place
  · exact .inr ⟨ha, hnone, h'.directories hd⟩

end Tree

namespace FileM
open UtilityCss.Tree

variable {t t' : Tree} {p : Path}

/-- The places to which a path or one above it leads. -/
def onTheWay (p : Path) (place : Place) : Prop := place = p.place ∨ place.IsAbove p

theorem isAbove_of_parent {above : Path} (h : p.parent? = some above) {place : Place}
    (ha : onTheWay above place) : place.IsAbove p := by
  obtain rfl | ⟨q, hq, hplace⟩ := ha
  · exact ⟨above, .single h, rfl⟩
  · exact ⟨q, hq.tail h, hplace⟩

theorem grows_makeDirectory (p : Path) (t : Tree) :
    Grows (onTheWay p) t ((makeDirectory p).run t).2 := by
  rcases change_cases (m := makeDirectory p) rfl t with ⟨e, he⟩ | ⟨t', hf, h⟩
  · rw [he]
    exact .refl t
  rw [h]
  split at hf
  · cases hf
  split at hf
  · cases hf
  · cases hf
  · rename_i place hfollow
    cases hf
    have hspot := followAll_eq t.isReached_root hfollow
    rw [Path.place_namePieces] at hspot
    obtain ⟨rfl, hnone⟩ := Spot.mk.inj hspot
    intro place
    by_cases hp : place = p.place
    · subst hp
      exact .inr ⟨.inl rfl, hnone.symm, node?_put_self (by rw [← hnone]; nofun)⟩
    · exact .inl (node?_put_of_ne hp)

theorem run_unlessDirectory (p : Path) (e : FileError) (t t₁ : Tree) :
    ((unless t.isDirectory p do throw e : FileM Unit).run t₁).2 = t₁ := by
  split <;> rfl

/-- A directory is made, or what is done instead. -/
theorem grows_makeOrElse {orElse : FileError → Tree → FileM Unit}
    (h : ∀ e t₁, Grows (onTheWay p) t ((orElse e t₁).run t).2) :
    Grows (onTheWay p) t ((match (makeDirectory p).run t with
      | (.ok (), t₁)   => set t₁
      | (.error e, t₁) => orElse e t₁ : FileM Unit).run t).2 := by
  have hmake := grows_makeDirectory p t
  split
  · rename_i t₁ hrun
    rw [hrun] at hmake
    exact hmake
  · exact h _ _

theorem grows_makeDirectoriesUp (levels : Nat) (p : Path) (t : Tree) :
    Grows (onTheWay p) t ((makeDirectoriesUp levels p).run t).2 := by
  induction levels generalizing p t with
  | zero =>
      unfold makeDirectoriesUp
      split
      · exact .refl t
      refine grows_makeOrElse fun e t₁ => ?_
      split
      · rw [run_unlessDirectory]
        exact .refl t
      · exact .refl t
  | succ n ih =>
      unfold makeDirectoriesUp
      split
      · exact .refl t
      refine grows_makeOrElse fun e t₁ => ?_
      split
      · rw [run_unlessDirectory]
        exact .refl t
      split
      · rename_i hlevels hparent
        cases hlevels
        have habove := (ih _ t).mono fun _ ha =>
          show onTheWay p _ from .inr (isAbove_of_parent hparent ha)
        rw [run_bind]
        split
        · rename_i t₂ hrun
          rw [hrun] at habove
          refine habove.trans (grows_makeOrElse fun e t₁ => ?_)
          rw [run_unlessDirectory]
          exact .refl t₂
        · rename_i hrun
          rw [hrun] at habove
          exact habove
      · exact .refl t

/-- Directories are made at the path and above it, where nothing was. -/
theorem grows_makeDirectories (p : Path) (t : Tree) :
    Grows (onTheWay p) t ((makeDirectories p).run t).2 :=
  grows_makeDirectoriesUp _ p t

end FileM

end UtilityCss
