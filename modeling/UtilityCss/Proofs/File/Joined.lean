import UtilityCss.Proofs.File.Again
import UtilityCss.Proofs.File.Normal

/-!
# Joined paths

A piece that is joined to a path is written behind it and followed from where it leads
(`Tree.followAll_join_piece`). So the paths to the names of one directory lead to places side by side
(`Path.place_join_name`), and where one of them can be followed the others can be, if they are no longer
(`Tree.spot_join_of_spot`). The name of a file is the last one of its place, however the path to it is
spelled (`Path.name?_of_spot`). A file that is put where nothing was is all that is new (`Tree.Adds`).
-/

namespace UtilityCss

namespace Path

variable {p q : Path} {piece : List Char} {name : String} {above : Place}

theorem isAbsolute_piece (h : '/' ∉ piece) : (Path.mk (String.ofList piece)).isAbsolute = false := by
  rw [Bool.eq_false_iff, ne_eq, isAbsolute_iff, String.toList_ofList]
  exact fun hc => h (List.mem_of_mem_head? hc)

theorem splitPieces_piece (h : '/' ∉ piece) : splitPieces piece = [piece] :=
  List.splitOn_eq_singleton h

theorem text_join (h : q.isAbsolute = false) (p : Path) : (p.join q).text =
    p.text ++ (if p.text.isEmpty || p.hasEndSlash then "" else "/") ++ q.text := by
  rw [join, if_neg (by simp [h])]
  split
  · rw [String.append_empty]
  · rfl

/-- What is joined is written behind a slash. -/
theorem toList_join (h : q.isAbsolute = false) (p : Path) :
    (p.join q).text.toList = p.text.toList ++
      (if p.text.isEmpty || p.hasEndSlash then q.text.toList else '/' :: q.text.toList) := by
  rw [text_join h, String.toList_append, String.toList_append, List.append_assoc]
  split <;> rfl

theorem toList_join_piece (h : '/' ∉ piece) (p : Path) :
    (p.join ⟨String.ofList piece⟩).text.toList =
      p.text.toList ++ (if p.text.isEmpty || p.hasEndSlash then piece else '/' :: piece) := by
  rw [toList_join (isAbsolute_piece h), String.toList_ofList]

theorem isAbsolute_name (h : IsName name) : (Path.mk name).isAbsolute = false := by
  simpa using isAbsolute_piece h.2.2

theorem place_join_name (p : Path) (h : IsName name) : (p.join ⟨name⟩).place = p.place ++ [name] := by
  have hnames := foldl_visit_names (List.forall_mem_singleton.2 h) p.place
  rw [place_join p (isAbsolute_name h), splitPieces_piece h.2.2]
  exact hnames

/-- The last name of a place is that of each path to a file there. -/
theorem name?_of_spot {t : Tree} {s : Tree.Spot} (h : t.spot p = .ok s)
    (hs : s.node ≠ some .directory) (hplace : p.place = above ++ [name]) : p.name? = some name := by
  obtain ⟨before, last, hp, hleads, hup⟩ := lastPiece_of_spot h hs
  have hlast : p.place = before.foldl Place.visit [] ++ [String.ofList last] := by
    rw [place, hp, List.foldl_concat, Place.visit, if_neg (by simp [hleads]), if_neg hup]
  have hname : String.ofList last = name :=
    List.singleton_inj.1 (List.append_inj' (hlast.symm.trans hplace) rfl).2
  have htrim : trimEnd p.pieces = before ++ [last] := by
    rw [trimEnd, hp, List.reverse_concat, List.dropWhile_cons_of_neg (by simp [hleads]),
      List.reverse_cons, List.reverse_reverse]
  rw [name?, htrim, List.getLast?_concat]
  simp only [if_neg hup, hname]

end Path

namespace Tree
open UtilityCss.Path

variable {t : Tree} {p a b : Path} {piece : List Char} {name other : String} {s : Spot}

theorem pathError?_eq_none : pathError? p = none ↔
    p.text.isEmpty = false ∧ p.text.toList.contains '\x00' = false ∧
      p.text.utf8ByteSize < pathLimit := by
  unfold pathError?
  split
  · simp_all
  split
  · simp_all
  split
  · simp_all
  · simp_all

/-- An empty piece is no step. -/
theorem follow_nil_bind (s : Spot) (piece : List Char) :
    (t.follow s []).bind (t.follow · piece) = t.follow s piece := by
  obtain ⟨place, node⟩ := s
  cases node with
  | none => rfl
  | some n => cases n <;> rfl

theorem followAll_singleton (s : Spot) (piece : List Char) :
    t.followAll s [piece] = t.follow s piece := by
  rw [followAll]
  cases t.follow s piece <;> rfl

/-- The start of a path leads nowhere. -/
theorem followAll_pieces (t : Tree) (p : Path) : t.followAll ⟨[], some .directory⟩ p.pieces =
    t.followAll ⟨[], some .directory⟩ (splitPieces p.text.toList) := by
  obtain ⟨start, start', rest, hstart, hstart', htext, hpieces⟩ := p.exists_rest
  rw [hpieces, htext, followAll_append, followAll_append, followAll_blanks hstart rfl,
    followAll_blanks hstart' rfl]

/-- A piece is followed from where the path leads to which it is joined. -/
theorem followAll_join_piece (h : '/' ∉ piece) (t : Tree) (p : Path) :
    t.followAll ⟨[], some .directory⟩ (p.join ⟨String.ofList piece⟩).pieces =
      (t.followAll ⟨[], some .directory⟩ p.pieces).bind (t.follow · piece) := by
  rw [followAll_pieces, followAll_pieces, splitPieces_join p (isAbsolute_piece h),
    String.toList_ofList, splitPieces_piece h, followAll_append]
  rcases splitPieces_eq p.text.toList with hp | hp
  · rw [hp]
    cases t.followAll ⟨[], some .directory⟩ (splitComponents p.text.toList) with
    | error e => rfl
    | ok s => exact followAll_singleton s piece
  · rw [hp, followAll_append]
    cases t.followAll ⟨[], some .directory⟩ (splitComponents p.text.toList) with
    | error e => rfl
    | ok s =>
        show t.followAll s [piece] = (t.followAll s [[]]).bind _
        rw [followAll_singleton, followAll_singleton, follow_nil_bind]

theorem spot_of_pathError? (h : pathError? p = none) :
    t.spot p = t.followAll ⟨[], some .directory⟩ p.pieces := by
  rw [spot, h]

theorem pathError?_of_spot (h : t.spot p = .ok s) : pathError? p = none := by
  unfold spot at h
  split at h
  · cases h
  · assumption

theorem directory_of_follow_ok {s' : Spot} (h : t.follow s piece = .ok s') :
    s.node = some .directory := by
  unfold follow at h
  split at h
  · cases h
  · cases h
  · assumption

/-! ### Names of one directory -/

/-- What can be a path can be one with another name in the same directory, if that is no longer. -/
theorem pathError?_join_of_join (ha : a.isAbsolute = false) (hb : b.isAbsolute = false)
    (hne : b.text ≠ "") (hnul : '\x00' ∉ b.text.toList)
    (hle : b.text.utf8ByteSize ≤ a.text.utf8ByteSize) (h : pathError? (p.join a) = none) :
    pathError? (p.join b) = none := by
  obtain ⟨-, hplain, hlength⟩ := pathError?_eq_none.1 h
  rw [text_join ha, String.toList_append] at hplain
  rw [text_join ha, String.utf8ByteSize_append] at hlength
  refine pathError?_eq_none.2 ⟨?_, ?_, ?_⟩
  · simp [text_join hb, hne]
  · rw [text_join hb, String.toList_append]
    simp only [List.contains_eq_mem, List.mem_append, decide_eq_false_iff_not, not_or] at hplain ⊢
    exact ⟨hplain.1, hnul⟩
  · rw [text_join hb, String.utf8ByteSize_append]
    omega

theorem follow_name (h : IsName name) (hs : s.node = some .directory) :
    t.follow s name.toList = if maxName < name.utf8ByteSize then .error .nameTooLong
      else .ok (t.spotAt (s.place ++ [name])) := by
  unfold follow
  simp only [hs, h.1, h.2.1, Bool.not_true, Bool.false_eq_true, if_false, String.ofList_toList]
  rfl

/-- Where one name of a directory can be followed to, others can be that are no longer. -/
theorem spot_join_of_spot (hname : IsName name) (hother : IsName other)
    (hnul : '\x00' ∉ other.toList) (hle : other.utf8ByteSize ≤ name.utf8ByteSize)
    (h : t.spot (p.join ⟨name⟩) = .ok s) :
    t.spot (p.join ⟨other⟩) = .ok (t.spotAt (p.join ⟨other⟩).place) := by
  have hpieces : ∀ {name : String}, IsName name →
      t.followAll ⟨[], some .directory⟩ (p.join ⟨name⟩).pieces =
        (t.followAll ⟨[], some .directory⟩ p.pieces).bind (t.follow · name.toList) := by
    intro name h
    simpa using followAll_join_piece h.2.2 t p
  have hne : other ≠ "" := by
    rintro rfl
    cases hother.1
  have herror := pathError?_of_spot h
  have herror' : pathError? (p.join ⟨other⟩) = none := pathError?_join_of_join
    (isAbsolute_name hname) (isAbsolute_name hother) hne hnul hle herror
  rw [spot_of_pathError? herror, hpieces hname] at h
  rw [spot_of_pathError? herror', hpieces hother]
  rcases hdirectory : t.followAll ⟨[], some .directory⟩ p.pieces with e | d
  · rw [hdirectory] at h
    cases h
  rw [hdirectory] at h
  change t.follow d name.toList = .ok s at h
  have hplace : d.place = p.place := congrArg Spot.place (followAll_eq t.isReached_root hdirectory)
  have hd := directory_of_follow_ok h
  rw [follow_name hname hd] at h
  show t.follow d other.toList = _
  rw [follow_name hother hd, if_neg, hplace, place_join_name p hother]
  split at h
  · cases h
  · omega

theorem exists?_iff_of_spot (h : t.spot p = .ok s) : t.exists? p ↔ t.node? p.place ≠ none := by
  rw [exists?, find, h, spot_eq h, spotAt]
  cases t.node? p.place <;> simp [Except.toOption]

/-! ### One file more -/

variable {t' : Tree} {place : Place}

/-- A file is added where nothing was, and all else stays. -/
structure Adds (place : Place) (t t' : Tree) : Prop where
  absent : t.node? place = none
  file   : ∃ c, t'.node? place = some (.file c)
  kept   : ∀ other, other ≠ place → t'.node? other = t.node? other

theorem not_directory (h : t.node? place = none) : t.node? place ≠ some .directory := by
  simp [h]

theorem adds_put (h : t.node? place = none) (c : Content) : Adds place t (t.put place (.file c)) :=
  ⟨h, ⟨c, node?_put_self (not_directory h)⟩, fun _ hne => node?_put_of_ne hne⟩

theorem Adds.present (h : Adds place t t') : t'.node? place ≠ none := by
  obtain ⟨c, hc⟩ := h.file
  simp [hc]

end Tree

end UtilityCss
