import UtilityCss.Proofs.File.Joined
import Mathlib.Data.String.Basic

/-!
# Paths joined from pieces

A path can be put together again from its pieces, one joined to the other (`Path.respelled`). That drops
empty pieces, and the dots at the start if the path does not start at the root. A path without such
pieces keeps its spelling (`Path.respelled_eq`). Any other leads to the same place, and to what stands
there wherever the path can be followed at all (`Tree.find_respelled`).
-/

namespace UtilityCss

namespace Path

variable {p q : Path} {s l piece : List Char} {pieces : List (List Char)}

/-- The path that leads on by pieces, each joined to those before it. -/
def along (p : Path) (pieces : List (List Char)) : Path :=
  pieces.foldl (fun q piece => q.join ⟨String.ofList piece⟩) p

/-- Pieces without the dots at their start. -/
def dropDots (pieces : List (List Char)) : List (List Char) := pieces.dropWhile (· = ['.'])

/-- A path joined anew from its pieces, so that the empty ones are lost. If it does not start at the
root, the dots at its start are lost too. -/
def respelled (q : Path) : Path :=
  if q.isAbsolute then (Path.mk "/").along q.pieces
  else (Path.mk "").along (dropDots (splitPieces q.text.toList))

theorem along_cons (p : Path) (piece : List Char) (pieces : List (List Char)) :
    p.along (piece :: pieces) = (p.join ⟨String.ofList piece⟩).along pieces := rfl

theorem slash_notMem_of_mem_splitPieces (h : piece ∈ splitPieces s) : '/' ∉ piece :=
  Text.not_mem_of_mem_splitOn h

theorem intercalate_splitPieces (s : List Char) : ['/'].intercalate (splitPieces s) = s :=
  List.intercalate_splitOn '/'

/-- A component of a text has no other characters than the text. -/
theorem subset_of_mem_splitComponents (h : piece ∈ splitComponents s) : piece ⊆ s := by
  have hmem : piece ∈ splitPieces s := by
    rcases splitPieces_eq s with hs | hs
    · rwa [hs]
    · rw [hs]
      exact List.mem_append_left _ h
  intro c hc
  have hslash : c ≠ '/' := by
    rintro rfl
    exact slash_notMem_of_mem_splitPieces hmem hc
  rw [← intercalate_splitPieces s]
  exact (Text.mem_intercalate hslash).2 ⟨piece, hmem, hc⟩

/-- A row of pieces is the first one and the others, each behind a slash. -/
theorem intercalate_cons (piece : List Char) (pieces : List (List Char)) :
    ['/'].intercalate (piece :: pieces) = piece ++ pieces.flatMap ('/' :: ·) := by
  induction pieces generalizing piece with
  | nil => simp
  | cons next pieces ih => rw [List.intercalate_cons_cons, ih]; simp

theorem isAbsolute_join (hq : q.isAbsolute = false) (p : Path) :
    (p.join q).isAbsolute = p.isAbsolute := by
  rw [Bool.eq_iff_iff, isAbsolute_iff, isAbsolute_iff, toList_join hq]
  rw [Bool.eq_false_iff, ne_eq, isAbsolute_iff] at hq
  cases hp : p.text.toList with
  | nil =>
      have hempty : p.text.isEmpty = true := by simpa using hp
      simpa [hempty] using hq
  | cons c s => rfl

/-- Pieces lead from place to place. -/
theorem place_along (h : ∀ piece ∈ pieces, '/' ∉ piece) (p : Path) :
    (p.along pieces).place = pieces.foldl Place.visit p.place := by
  induction pieces generalizing p with
  | nil => rfl
  | cons piece pieces ih =>
      obtain ⟨hpiece, hlater⟩ := List.forall_mem_cons.1 h
      rw [along_cons, ih hlater, place_join p (isAbsolute_piece hpiece), String.toList_ofList,
        splitPieces_piece hpiece]
      rfl

theorem prefix_along (h : ∀ piece ∈ pieces, '/' ∉ piece) (p : Path) :
    p.text.toList <+: (p.along pieces).text.toList := by
  induction pieces generalizing p with
  | nil => exact List.prefix_refl _
  | cons piece pieces ih =>
      obtain ⟨hpiece, hlater⟩ := List.forall_mem_cons.1 h
      refine List.IsPrefix.trans ?_ (ih hlater _)
      rw [toList_join_piece hpiece]
      exact List.prefix_append _ _

/-- Each piece takes at most itself and a slash. -/
theorem along_sublist (h : ∀ piece ∈ pieces, '/' ∉ piece) (p : Path) :
    (p.along pieces).text.toList.Sublist (p.text.toList ++ pieces.flatMap ('/' :: ·)) := by
  induction pieces generalizing p with
  | nil => simp [along]
  | cons piece pieces ih =>
      obtain ⟨hpiece, hlater⟩ := List.forall_mem_cons.1 h
      refine (ih hlater _).trans ?_
      rw [toList_join_piece hpiece, List.flatMap_cons, ← List.append_assoc]
      refine List.Sublist.append (List.Sublist.append (List.Sublist.refl _) ?_) (List.Sublist.refl _)
      split
      · exact List.sublist_cons_self _ _
      · exact List.Sublist.refl _

/-- Behind a piece that is not empty, the next one takes a slash. -/
theorem takesSlash_of_append (hp : p.text.toList = l ++ piece) (hne : piece ≠ [])
    (h : '/' ∉ piece) : (p.text.isEmpty || p.hasEndSlash) = false := by
  obtain ⟨before, last, -, hlast⟩ := exists_lastPiece l
  rw [Bool.eq_false_iff, ne_eq, takesNoSlash_iff, hp, hlast piece h, List.getLast?_concat]
  simp [hne]

/-- Pieces that are not empty take themselves and a slash. -/
theorem toList_along (h : ∀ piece ∈ pieces, '/' ∉ piece) (hne : ∀ piece ∈ pieces, piece ≠ [])
    (hp : (p.text.isEmpty || p.hasEndSlash) = false) :
    (p.along pieces).text.toList = p.text.toList ++ pieces.flatMap ('/' :: ·) := by
  induction pieces generalizing p with
  | nil => simp [along]
  | cons piece pieces ih =>
      obtain ⟨hpiece, hlater⟩ := List.forall_mem_cons.1 h
      obtain ⟨hfirst, hne⟩ := List.forall_mem_cons.1 hne
      have hjoin : (p.join ⟨String.ofList piece⟩).text.toList = p.text.toList ++ ['/'] ++ piece := by
        rw [toList_join_piece hpiece, if_neg (by simp [hp]), List.append_assoc, List.singleton_append]
      rw [along_cons, ih hlater hne (takesSlash_of_append hjoin hfirst hpiece), hjoin,
        List.flatMap_cons, List.append_assoc, List.append_assoc, List.singleton_append,
        List.cons_append]

/-! ### From the root or from nothing -/

section Base

variable {base : Path} (hbase : base = ⟨"/"⟩ ∨ base = ⟨""⟩)
include hbase

/-- The first piece takes no slash. -/
theorem toList_join_base (h : '/' ∉ piece) :
    (base.join ⟨String.ofList piece⟩).text.toList = base.text.toList ++ piece := by
  rw [toList_join_piece h, if_pos]
  rcases hbase with rfl | rfl <;> rfl

/-- Pieces take at most the text of their row. -/
theorem along_base_sublist (h : ∀ piece ∈ pieces, '/' ∉ piece) :
    (base.along pieces).text.toList.Sublist (base.text.toList ++ ['/'].intercalate pieces) := by
  cases pieces with
  | nil => simp [along]
  | cons piece pieces =>
      obtain ⟨hpiece, hlater⟩ := List.forall_mem_cons.1 h
      rw [along_cons, intercalate_cons, ← List.append_assoc, ← toList_join_base hbase hpiece]
      exact along_sublist hlater _

/-- Pieces that are not empty take the text of their row. -/
theorem toList_along_base (h : ∀ piece ∈ pieces, '/' ∉ piece) (hne : ∀ piece ∈ pieces, piece ≠ []) :
    (base.along pieces).text.toList = base.text.toList ++ ['/'].intercalate pieces := by
  cases pieces with
  | nil => simp [along]
  | cons piece pieces =>
      obtain ⟨hpiece, hlater⟩ := List.forall_mem_cons.1 h
      obtain ⟨hfirst, hne⟩ := List.forall_mem_cons.1 hne
      have hone := toList_join_base hbase hpiece
      rw [along_cons, toList_along hlater hne (takesSlash_of_append hone hfirst hpiece), hone,
        intercalate_cons, List.append_assoc]

end Base

theorem exists_toList_of_isAbsolute (h : q.isAbsolute) :
    ∃ s, q.text.toList = '/' :: s ∧ q.pieces = splitPieces s ∧
      splitPieces q.text.toList = [] :: splitPieces s := by
  obtain ⟨s, hs⟩ := List.head?_eq_some_iff.1 (isAbsolute_iff.1 h)
  refine ⟨s, hs, ?_, ?_⟩
  · rw [pieces, hs]
    rfl
  · rw [hs]
    exact List.splitOn_append_cons_self (a := '/') [] s

/-- The pieces of a respelled path are the last ones of the path, behind some that lead nowhere. -/
theorem exists_respelled (q : Path) : ∃ (base : Path) (pieces start : List (List Char)),
    q.respelled = base.along pieces ∧ (base = ⟨"/"⟩ ∨ base = ⟨""⟩) ∧
      (∀ piece ∈ start, leads piece = false) ∧ splitPieces q.text.toList = start ++ pieces ∧
      base.text.toList ++ ['/'].intercalate pieces <:+ q.text.toList := by
  unfold respelled
  split
  · rename_i hq
    obtain ⟨s, hs, hpieces, hsplit⟩ := exists_toList_of_isAbsolute hq
    refine ⟨_, _, [[]], rfl, .inl rfl, by decide, hpieces ▸ hsplit, ?_⟩
    rw [hs, hpieces, intercalate_splitPieces]
    exact List.suffix_refl _
  · refine ⟨_, _, (splitPieces q.text.toList).takeWhile (· = ['.']), rfl, .inr rfl, ?_,
      List.takeWhile_append_dropWhile.symm, ?_⟩
    · intro piece hpiece
      obtain rfl : piece = ['.'] := by simpa using List.mem_takeWhile_imp hpiece
      rfl
    · have hsuffix := Text.suffix_intercalate (a := '/')
        (List.dropWhile_suffix (l := splitPieces q.text.toList) (· = ['.']))
      rwa [intercalate_splitPieces] at hsuffix

theorem slash_notMem_of_suffix {start : List (List Char)}
    (h : splitPieces s = start ++ pieces) : ∀ piece ∈ pieces, '/' ∉ piece :=
  fun _ hp => slash_notMem_of_mem_splitPieces (h ▸ List.mem_append_right _ hp)

/-- A respelled path leads to the same place. -/
theorem place_respelled (q : Path) : q.respelled.place = q.place := by
  obtain ⟨base, pieces, start, hq, hbase, hstart, hpieces, -⟩ := q.exists_respelled
  have hplace : base.place = [] := by rcases hbase with rfl | rfl <;> rfl
  rw [hq, place_along (slash_notMem_of_suffix hpieces), place_eq q, hpieces, List.foldl_append,
    foldl_visit_blanks hstart, hplace]

theorem ne_empty_of_place (h : p.place ≠ []) : p.text ≠ "" := by
  obtain ⟨text⟩ := p
  rintro rfl
  exact h rfl

theorem respelled_sublist (q : Path) : q.respelled.text.toList.Sublist q.text.toList := by
  obtain ⟨base, pieces, start, hq, hbase, -, hpieces, htext⟩ := q.exists_respelled
  rw [hq]
  exact (along_base_sublist hbase (slash_notMem_of_suffix hpieces)).trans htext.sublist

/-- Without empty pieces, a path that does not start at the root does not start with a dot. -/
theorem dropDots_of_pieces (hq : q.isAbsolute = false) (hne : ∀ piece ∈ q.pieces, piece ≠ []) :
    q.pieces = splitPieces q.text.toList ∧
      dropDots (splitPieces q.text.toList) = splitPieces q.text.toList := by
  unfold pieces PathStart.split at hne ⊢
  split at hne
  · rename_i hs
    rw [Bool.eq_false_iff, ne_eq, isAbsolute_iff, hs] at hq
    exact absurd rfl hq
  · exact absurd rfl (hne [] List.mem_cons_self)
  · exact absurd rfl (hne [] List.mem_cons_self)
  · rename_i hdot hdots
    refine ⟨rfl, ?_⟩
    have hrow := intercalate_splitPieces q.text.toList
    cases hpieces : splitPieces q.text.toList with
    | nil => rfl
    | cons piece pieces =>
        refine List.dropWhile_cons_of_neg fun hpiece => ?_
        rw [hpieces, of_decide_eq_true hpiece, intercalate_cons] at hrow
        cases pieces with
        | nil => exact hdot hrow.symm
        | cons next pieces => exact hdots _ hrow.symm

/-- A path without empty pieces keeps its spelling. -/
theorem respelled_eq (hne : ∀ piece ∈ q.pieces, piece ≠ []) : q.respelled = q := by
  have htext : q.respelled.text.toList = q.text.toList := by
    unfold respelled
    split
    · rename_i hq
      obtain ⟨s, hs, hpieces, -⟩ := exists_toList_of_isAbsolute hq
      rw [hpieces] at hne
      rw [hpieces, toList_along_base (.inl rfl) (fun _ => slash_notMem_of_mem_splitPieces) hne,
        intercalate_splitPieces, hs]
      rfl
    · rename_i hq
      obtain ⟨hpieces, hdots⟩ := dropDots_of_pieces (Bool.eq_false_iff.2 hq) hne
      rw [hpieces] at hne
      rw [hdots, toList_along_base (.inr rfl) (fun _ => slash_notMem_of_mem_splitPieces) hne,
        intercalate_splitPieces]
      rfl
  exact congrArg Path.mk (String.toList_inj.1 htext)

end Path

/-! ### What stands there -/

namespace Tree

variable {t : Tree} {p q : Path} {piece : List Char} {pieces : List (List Char)} {s : Spot}

/-- What is left of a path can be a path if it can, unless nothing is left. -/
theorem pathError?_of_sublist (h : p.text.toList.Sublist q.text.toList) (hp : p.text ≠ "")
    (hq : pathError? q = none) : pathError? p = none := by
  obtain ⟨-, hnul, hlength⟩ := pathError?_eq_none.1 hq
  have hsize : ∀ q : Path, q.text.utf8ByteSize = String.utf8Len q.text.toList := by
    intro q
    rw [← String.utf8ByteSize_ofList, String.ofList_toList]
  refine pathError?_eq_none.2 ⟨by simpa using hp, ?_, ?_⟩
  · simp only [List.contains_eq_mem, decide_eq_false_iff_not] at hnul ⊢
    exact fun hc => hnul (h.subset hc)
  · rw [hsize] at hlength ⊢
    exact Nat.lt_of_le_of_lt (String.utf8Len_le_of_sublist h) hlength

/-- Joined pieces are followed one after the other. -/
theorem followAll_along (h : ∀ piece ∈ pieces, '/' ∉ piece) (t : Tree) (p : Path) :
    t.followAll ⟨[], some .directory⟩ (p.along pieces).pieces =
      (t.followAll ⟨[], some .directory⟩ p.pieces).bind (t.followAll · pieces) := by
  induction pieces generalizing p with
  | nil =>
      show t.followAll _ p.pieces = _
      cases t.followAll ⟨[], some .directory⟩ p.pieces <;> rfl
  | cons piece pieces ih =>
      obtain ⟨hpiece, hlater⟩ := List.forall_mem_cons.1 h
      rw [Path.along_cons, ih hlater, followAll_join_piece hpiece]
      cases t.followAll ⟨[], some .directory⟩ p.pieces with
      | error e => rfl
      | ok s =>
          show (t.follow s piece).bind _ = t.followAll s (piece :: pieces)
          rw [followAll]
          cases t.follow s piece <;> rfl

/-- A respelled path leads to the same. -/
theorem find_respelled (hne : q.respelled.text ≠ "") (herror : pathError? q = none) :
    t.find q.respelled = t.find q := by
  have hspot : t.spot q.respelled = t.spot q := by
    rw [spot_of_pathError? (pathError?_of_sublist q.respelled_sublist hne herror),
      spot_of_pathError? herror, followAll_pieces t q]
    obtain ⟨base, pieces, start, hq, hbase, hstart, hpieces, -⟩ := q.exists_respelled
    have hroot : t.followAll ⟨[], some .directory⟩ base.pieces = .ok ⟨[], some .directory⟩ := by
      rcases hbase with rfl | rfl <;> rfl
    rw [hq, followAll_along (Path.slash_notMem_of_suffix hpieces), hroot, hpieces, followAll_append,
      followAll_blanks hstart rfl]
    rfl
  rw [find, find, hspot]

theorem isFile_respelled (hne : q.respelled.text ≠ "") (herror : pathError? q = none) :
    t.isFile q.respelled = t.isFile q := by
  rw [isFile, find_respelled hne herror]
  rfl

/-- Where a file stands behind a path, the path leads somewhere. -/
theorem exists_spot_of_isFile_along (h : ∀ piece ∈ pieces, '/' ∉ piece) (hp : p.text ≠ "")
    (hfile : t.isFile (p.along pieces)) :
    ∃ s place content, t.spot p = .ok s ∧ t.followAll s pieces = .ok ⟨place, some (.file content)⟩ := by
  obtain ⟨content, hfind⟩ := isFile_iff.1 hfile
  obtain ⟨-, hnode⟩ := find_eq hfind
  have hspot := spot_of_find hfind
  have herror := pathError?_of_spot hspot
  rw [spotAt, hnode, spot_of_pathError? herror, followAll_along h] at hspot
  rw [spot_of_pathError? (pathError?_of_sublist (Path.prefix_along h p).sublist hp herror)]
  cases hs : t.followAll ⟨[], some .directory⟩ p.pieces with
  | error e =>
      rw [hs] at hspot
      cases hspot
  | ok s =>
      rw [hs] at hspot
      exact ⟨s, _, content, rfl, hspot⟩

theorem isDirectory_of_isFile_along (h : ∀ q ∈ piece :: pieces, '/' ∉ q) (hp : p.text ≠ "")
    (hfile : t.isFile (p.along (piece :: pieces))) : t.isDirectory p := by
  obtain ⟨⟨place, node⟩, _, _, hspot, hfollow⟩ := exists_spot_of_isFile_along h hp hfile
  rw [followAll] at hfollow
  split at hfollow
  · rename_i hpiece
    obtain rfl : node = some .directory := directory_of_follow_ok hpiece
    rw [isDirectory, find, hspot]
  · cases hfollow

theorem exists?_of_isFile_along (h : ∀ piece ∈ pieces, '/' ∉ piece) (hp : p.text ≠ "")
    (hfile : t.isFile (p.along pieces)) : t.exists? p := by
  cases pieces with
  | nil =>
      obtain ⟨content, hfind⟩ := isFile_iff.1 hfile
      rw [exists?, show t.find p = _ from hfind]
      rfl
  | cons piece pieces =>
      have hdirectory := isDirectory_iff.1 (isDirectory_of_isFile_along h hp hfile)
      rw [exists?, hdirectory]
      rfl

end Tree

end UtilityCss
