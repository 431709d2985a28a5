import UtilityCss.File.Tree
import Mathlib.Data.List.Basic

/-!
# Where paths lead

The place of a path can be read off its text: a piece leads down by its name, `..` leads up, and the
others lead nowhere (`Path.place`). A tree decides whether a path can be followed, not where it leads
(`Tree.spot_eq`); and whether it can be followed depends on the directories of the tree alone
(`Tree.spot_of_directories`). So a tree may get and lose files without moving anything. A path with
a text behind it leads elsewhere (`Path.place_extend_ne`).
-/

namespace UtilityCss

/-- The place that a piece leads to from another. -/
def Place.visit (place : Place) (piece : List Char) : Place :=
  if !Path.leads piece then place
  else if piece = ['.', '.'] then place.dropLast
  else place ++ [String.ofList piece]

/-- The place that a path leads to if it can be followed. -/
def Path.place (p : Path) : Place := p.pieces.foldl Place.visit []

/-! ### The last piece -/

namespace Path

/-- What is written behind a text belongs to its last piece. -/
theorem exists_lastPiece (s : List Char) : ∃ before last, '/' ∉ last ∧
    ∀ e, '/' ∉ e → splitPieces (s ++ e) = before ++ [last ++ e] := by
  induction s with
  | nil => exact ⟨[], [], by simp, fun e he => List.splitOn_eq_singleton he⟩
  | cons c s ih =>
      obtain ⟨before, last, hlast, hs⟩ := ih
      have hcons : ∀ e, '/' ∉ e → splitPieces (c :: s ++ e) =
          if c == '/' then [] :: (before ++ [last ++ e])
          else (before ++ [last ++ e]).modifyHead (c :: ·) := by
        intro e he
        rw [← hs e he]
        exact List.splitOn_cons_eq_if_modifyHead c (s ++ e)
      by_cases hc : c = '/'
      · exact ⟨[] :: before, last, hlast, fun e he => by rw [hcons e he, hc]; rfl⟩
      · have hne : (c == '/') = false := by simpa using hc
        have hc' : '/' ≠ c := fun e => hc e.symm
        simp only [hne, Bool.false_eq_true, if_false] at hcons
        -- the first piece gets the character, and it may be the last one
        cases before with
        | nil => exact ⟨[], c :: last, by simp [hc', hlast], hcons⟩
        | cons b before => exact ⟨(c :: b) :: before, last, hlast, hcons⟩

/-- The last piece is empty if nothing stands before it, or a slash. -/
theorem getLast?_splitPieces (s : List Char) :
    (splitPieces s).getLast? = some [] ↔ s = [] ∨ s.getLast? = some '/' := by
  rcases List.eq_nil_or_concat s with rfl | ⟨l, c, rfl⟩
  · exact ⟨fun _ => .inl rfl, fun _ => rfl⟩
  rw [List.concat_eq_append]
  by_cases hc : c = '/'
  · have hsplit : splitPieces (l ++ ['/']) = splitPieces l ++ [[]] :=
      List.splitOn_append_cons_self (a := '/') l []
    simp [hc, hsplit]
  · obtain ⟨before, last, -, hlast⟩ := exists_lastPiece l
    rw [hlast [c] (by simpa using Ne.symm hc)]
    simp [hc]

/-- The pieces are the components, and an empty one if there is no other or a slash before it. -/
theorem splitPieces_eq (s : List Char) :
    splitPieces s = splitComponents s ∨ splitPieces s = splitComponents s ++ [[]] := by
  rw [splitComponents]
  split
  · rename_i hlast
    exact .inr (List.dropLast_append_getLast? _ hlast).symm
  · exact .inl rfl

/-- A path is its text between slashes, up to pieces at the start that lead nowhere. -/
theorem exists_rest (p : Path) : ∃ start start' rest,
    (∀ piece ∈ start, leads piece = false) ∧ (∀ piece ∈ start', leads piece = false) ∧
      splitPieces p.text.toList = start ++ rest ∧ p.pieces = start' ++ rest := by
  have hcons : ∀ s, splitPieces ('/' :: s) = [] :: splitPieces s := fun s =>
    List.splitOn_append_cons_self (a := '/') [] s
  unfold pieces PathStart.split
  split
  · rename_i s hs
    exact ⟨[[]], [], splitPieces s, by decide, by decide, by rw [hs, hcons]; rfl, rfl⟩
  · rename_i hs
    exact ⟨[['.']], [[]], [], by decide, by decide, by rw [hs]; rfl, rfl⟩
  · rename_i s hs
    have hdot : splitPieces ('.' :: '/' :: s) = ['.'] :: splitPieces s :=
      List.splitOn_append_cons_self (a := '/') ['.'] s
    exact ⟨[['.']], [[]], splitPieces s, by decide, by decide, by rw [hs, hdot]; rfl, hcons s⟩
  · exact ⟨[], [], _, nofun, nofun, rfl, rfl⟩

theorem foldl_visit_blanks {blanks : List (List Char)} (h : ∀ piece ∈ blanks, leads piece = false)
    (place : Place) : blanks.foldl Place.visit place = place := by
  induction blanks with
  | nil => rfl
  | cons piece blanks ih =>
      obtain ⟨hpiece, hlater⟩ := List.forall_mem_cons.1 h
      rw [List.foldl_cons, Place.visit, if_pos (by simp [hpiece]), ih hlater]

/-- The start of a path leads nowhere. -/
theorem place_eq (p : Path) : p.place = (splitPieces p.text.toList).foldl Place.visit [] := by
  obtain ⟨start, start', rest, hstart, hstart', htext, hpieces⟩ := p.exists_rest
  rw [place, hpieces, htext, List.foldl_append, List.foldl_append, foldl_visit_blanks hstart,
    foldl_visit_blanks hstart']

/-- A name with a text behind it is another name, and it leads somewhere. -/
theorem place_extend_ne {e : String} (he : '/' ∉ e.toList) (hlength : 3 ≤ e.toList.length)
    (p : Path) : (p.extend e).place ≠ p.place := by
  obtain ⟨before, last, -, hp⟩ := exists_lastPiece p.text.toList
  have hplain := hp [] (by simp)
  rw [List.append_nil, List.append_nil] at hplain
  rw [place_eq, place_eq, extend, String.toList_append, hp _ he, hplain, List.foldl_concat,
    List.foldl_concat]
  generalize before.foldl Place.visit [] = place
  have hlong : ∀ s : List Char, s.length < 3 → last ++ e.toList ≠ s := by
    rintro s hs rfl
    rw [List.length_append] at hs
    omega
  have hleads : leads (last ++ e.toList) = true := by
    simp [leads, hlong [] (by decide), hlong ['.'] (by decide)]
  have hup : last ++ e.toList ≠ ['.', '.'] := hlong _ (by decide)
  have hdown : Place.visit place (last ++ e.toList) = place ++ [String.ofList (last ++ e.toList)] := by
    rw [Place.visit, if_neg (by simp [hleads]), if_neg hup]
  rw [hdown]
  intro h
  -- the last piece leads to the place before it, above that, or to another name
  unfold Place.visit at h
  split at h
  · exact absurd (congrArg List.length h) (by simp)
  split at h
  · have hshort := congrArg List.length h
    rw [List.length_append, List.length_dropLast, List.length_singleton] at hshort
    omega
  · have hname := String.ofList_injective (List.singleton_inj.1 (List.append_cancel_left h))
    have hshort := congrArg List.length hname
    rw [List.length_append] at hshort
    omega

end Path

/-! ### Following paths -/

namespace Tree

variable {t t' : Tree} {place : Place} {piece : List Char} {pieces : List (List Char)} {p : Path}
  {n : Node} {s : Spot}

/-- The spot at a place. -/
def spotAt (t : Tree) (place : Place) : Spot := ⟨place, t.node? place⟩

/-- Everything above a place is a directory. -/
def IsReached (t : Tree) (place : Place) : Prop :=
  ∀ above, above <+: place → above ≠ place → t.node? above = some .directory

theorem isReached_root (t : Tree) : t.IsReached [] :=
  fun _ habove hne => absurd (List.prefix_nil.1 habove) hne

theorem IsReached.concat (h : t.IsReached place) (hd : t.node? place = some .directory)
    (name : String) : t.IsReached (place ++ [name]) := by
  intro above habove hne
  have hprefix : above <+: place := (List.prefix_concat_iff.1 habove).resolve_left hne
  by_cases he : above = place
  · exact he ▸ hd
  · exact h above hprefix he

theorem IsReached.dropLast (h : t.IsReached place) : t.IsReached place.dropLast := by
  intro above habove hne
  refine h above (habove.trans (List.dropLast_prefix place)) fun e => hne ?_
  exact habove.eq_of_length_le (e ▸ (List.dropLast_prefix place).length_le)

/-- The way up ends at a directory. -/
theorem IsReached.node?_dropLast (h : t.IsReached place) :
    t.node? place.dropLast = some .directory := by
  by_cases hp : place = []
  · rw [hp]; rfl
  · refine h _ (List.dropLast_prefix place) fun e => hp ?_
    have hlength := congrArg List.length e
    rw [List.length_dropLast] at hlength
    have hpos : place.length ≠ 0 := mt List.length_eq_zero_iff.1 hp
    omega

theorem IsReached.visit (h : t.IsReached place) (hd : t.node? place = some .directory)
    (piece : List Char) : t.IsReached (place.visit piece) := by
  unfold Place.visit
  split
  · exact h
  split
  · exact h.dropLast
  · exact h.concat hd _

/-- A piece is followed from a directory, or not at all. -/
theorem directory_of_follow (h : t.follow (t.spotAt place) piece = .ok s) :
    t.node? place = some .directory := by
  unfold follow at h
  split at h
  · cases h
  · cases h
  · assumption

/-- A piece leads from a directory to the same place in all trees that have the directories. -/
theorem follow_of_directories (hr : t.IsReached place)
    (hdirs : ∀ q, t.node? q = some .directory → t'.node? q = some .directory)
    (h : t.follow (t.spotAt place) piece = .ok s) :
    t'.follow (t'.spotAt place) piece = .ok (t'.spotAt (place.visit piece)) := by
  have hd := directory_of_follow h
  have hd' : (t'.spotAt place).node = some .directory := hdirs _ hd
  unfold follow at h ⊢
  rw [show (t.spotAt place).node = some .directory from hd] at h
  rw [hd']
  simp only at h ⊢
  unfold Place.visit
  by_cases hleads : !Path.leads piece
  · rw [if_pos hleads, if_pos hleads]
  rw [if_neg hleads] at h
  rw [if_neg hleads, if_neg hleads]
  by_cases hup : piece = ['.', '.']
  · rw [if_pos hup, if_pos hup]
    have hnode : t'.node? place.dropLast = some .directory := hdirs _ hr.node?_dropLast
    exact congrArg (fun n => Except.ok (Spot.mk place.dropLast n)) hnode.symm
  rw [if_neg hup] at h
  rw [if_neg hup, if_neg hup]
  split at h
  · cases h
  · rename_i hname
    rw [if_neg hname]
    rfl

theorem follow_eq (hr : t.IsReached place) (h : t.follow (t.spotAt place) piece = .ok s) :
    s = t.spotAt (place.visit piece) :=
  Except.ok.inj (h.symm.trans (follow_of_directories hr (fun _ hq => hq) h))

theorem followAll_of_directories (hr : t.IsReached place)
    (hdirs : ∀ q, t.node? q = some .directory → t'.node? q = some .directory)
    (h : t.followAll (t.spotAt place) pieces = .ok s) :
    t'.followAll (t'.spotAt place) pieces = .ok (t'.spotAt (pieces.foldl Place.visit place)) := by
  induction pieces generalizing place with
  | nil => rfl
  | cons piece pieces ih =>
      unfold followAll at h ⊢
      split at h
      · rename_i s' hone
        rw [follow_of_directories hr hdirs hone]
        rw [follow_eq hr hone] at h
        exact ih (hr.visit (directory_of_follow hone) piece) h
      · cases h

theorem followAll_eq (hr : t.IsReached place)
    (h : t.followAll (t.spotAt place) pieces = .ok s) :
    s = t.spotAt (pieces.foldl Place.visit place) :=
  Except.ok.inj (h.symm.trans (followAll_of_directories hr (fun _ hq => hq) h))

/-- A path that can be followed leads to its place, and shows what stands there. -/
theorem spot_eq (h : t.spot p = .ok s) : s = t.spotAt p.place := by
  unfold spot at h
  split at h
  · cases h
  · exact followAll_eq t.isReached_root h

/-- A path can be followed in all trees that have the directories. -/
theorem spot_of_directories
    (hdirs : ∀ q, t.node? q = some .directory → t'.node? q = some .directory)
    (h : t.spot p = .ok s) : t'.spot p = .ok (t'.spotAt p.place) := by
  unfold spot at h ⊢
  split at h
  · cases h
  · exact followAll_of_directories t.isReached_root hdirs h

theorem find_eq (h : t.find p = .ok (place, n)) : place = p.place ∧ t.node? p.place = some n := by
  unfold find at h
  split at h
  · cases h
  · rename_i hs
    cases h
    have he := spot_eq hs
    exact ⟨congrArg Spot.place he, (congrArg Spot.node he).symm⟩
  · cases h

theorem spot_of_find (h : t.find p = .ok (place, n)) : t.spot p = .ok (t.spotAt p.place) := by
  unfold find at h
  split at h
  · cases h
  · rename_i hs
    rw [hs, spot_eq hs]
  · cases h

theorem find_of_spot (h : t.spot p = .ok s) (hn : t.node? p.place = some n) :
    t.find p = .ok (p.place, n) := by
  unfold find
  rw [h, spot_eq h, spotAt, hn]

end Tree

end UtilityCss
