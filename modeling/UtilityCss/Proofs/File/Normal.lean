import UtilityCss.Proofs.File.Place
import UtilityCss.Proofs.Text
import Mathlib.Data.List.Infix
import Mathlib.Data.List.Induction

/-!
# Normal paths

A place has one path from the root without empty pieces, `.` and `..` (`Path.ofPlace`), and every path
leads where one of these leads (`Path.normalize`). The way from a place down to another is the row of
names in between: that is how the path of the lower one is seen from the upper one
(`Path.from?_ofPlace`), and where such a row leads (`Path.place_join`, `Path.foldl_visit_names`).
-/

namespace UtilityCss

namespace Path

/-- A piece that leads down. -/
def IsName (name : String) : Prop :=
  leads name.toList ∧ name.toList ≠ ['.', '.'] ∧ '/' ∉ name.toList

/-- The path from the root to a place. -/
def ofPlace (place : Place) : Path := ofPieces .root (place.map String.toList)

/-- The path from the root to where a path leads. -/
def normalize (p : Path) : Path := ofPlace p.place

/-- A path from the root is written without empty pieces, `.` and `..`. -/
def IsNormal (p : Path) : Prop := p.normalize = p

instance (p : Path) : Decidable p.IsNormal := inferInstanceAs (Decidable (p.normalize = p))

variable {p dir : Path} {place names : Place}

/-! ### Names -/

theorem isName_of_mem_visit {piece : List Char} (hplace : ∀ name ∈ place, IsName name)
    (hpiece : '/' ∉ piece) : ∀ name ∈ place.visit piece, IsName name := by
  intro name h
  unfold Place.visit at h
  split at h
  · exact hplace name h
  split at h
  · exact hplace name ((List.dropLast_prefix place).subset h)
  rename_i hleads hup
  rcases List.mem_append.1 h with h | h
  · exact hplace name h
  · rw [List.mem_singleton.1 h, IsName, String.toList_ofList]
    exact ⟨by simpa using hleads, hup, hpiece⟩

theorem isName_of_mem_place {name : String} (h : name ∈ p.place) : IsName name := by
  have hfold : ∀ (pieces : List (List Char)) (place : Place), (∀ piece ∈ pieces, '/' ∉ piece) →
      (∀ name ∈ place, IsName name) → ∀ name ∈ pieces.foldl Place.visit place, IsName name := by
    intro pieces
    induction pieces with
    | nil => exact fun _ _ hplace => hplace
    | cons piece pieces ih =>
        intro place hpieces hplace
        obtain ⟨hpiece, hlater⟩ := List.forall_mem_cons.1 hpieces
        exact ih _ hlater (isName_of_mem_visit hplace hpiece)
  exact hfold p.pieces [] (fun _ hp => Text.not_mem_of_mem_splitOn hp) nofun name h

/-- Names lead down. -/
theorem foldl_visit_names (h : ∀ name ∈ names, IsName name) (place : Place) :
    (names.map String.toList).foldl Place.visit place = place ++ names := by
  induction names generalizing place with
  | nil => simp
  | cons name names ih =>
      obtain ⟨⟨hleads, hup, -⟩, hnames⟩ := List.forall_mem_cons.1 h
      rw [List.map_cons, List.foldl_cons, ih hnames, Place.visit, if_neg (by simp [hleads]),
        if_neg hup, String.ofList_toList, List.append_assoc, List.singleton_append]

theorem trimEnd_names (h : ∀ name ∈ names, IsName name) :
    trimEnd (names.map String.toList) = names.map String.toList := by
  induction names using List.reverseRecOn with
  | nil => rfl
  | append_singleton names name _ =>
      have hlast := (h name (List.mem_append_right _ List.mem_cons_self)).1
      rw [trimEnd, List.map_append, List.map_singleton, List.reverse_concat,
        List.dropWhile_cons_of_neg (by simp [hlast]), List.reverse_cons, List.reverse_reverse]

theorem splitPieces_intercalate (h : ∀ name ∈ names, IsName name) (hne : names ≠ []) :
    splitPieces (['/'].intercalate (names.map String.toList)) = names.map String.toList := by
  have hslash : ∀ piece ∈ names.map String.toList, '/' ∉ piece := by
    intro piece hpiece
    obtain ⟨name, hname, rfl⟩ := List.mem_map.1 hpiece
    exact (h name hname).2.2
  exact List.splitOn_intercalate '/' hslash (by simpa using hne)

/-! ### The path of a place -/

theorem start_ofPlace (place : Place) : (ofPlace place).start = .root := by
  rw [start, ofPlace, ofPieces, String.toList_ofList]
  rfl

theorem pieces_ofPlace (h : ∀ name ∈ place, IsName name) (hne : place ≠ []) :
    (ofPlace place).pieces = place.map String.toList := by
  rw [pieces, ofPlace, ofPieces, String.toList_ofList]
  exact splitPieces_intercalate h hne

theorem place_ofPlace (h : ∀ name ∈ place, IsName name) : (ofPlace place).place = place := by
  by_cases hne : place = []
  · subst hne
    rfl
  · rw [Path.place, pieces_ofPlace h hne, foldl_visit_names h, List.nil_append]

theorem parent?_ofPlace (h : ∀ name ∈ place, IsName name) (hne : place ≠ []) :
    (ofPlace place).parent? = some (ofPlace place.dropLast) := by
  have hdrop : ∀ name ∈ place.dropLast, IsName name := fun name hn =>
    h name ((List.dropLast_prefix place).subset hn)
  unfold parent?
  rw [pieces_ofPlace h hne, trimEnd_names h, start_ofPlace]
  split
  · rename_i hstart _
    cases hstart
  · rename_i hpieces _
    exact absurd (List.map_eq_nil_iff.1 hpieces) hne
  · rw [← List.map_dropLast, trimEnd_names hdrop]
    rfl

theorem leads_of_mem_map (h : ∀ name ∈ names, IsName name) :
    ∀ piece ∈ names.map String.toList, leads piece := by
  intro piece hpiece
  obtain ⟨name, hname, rfl⟩ := List.mem_map.1 hpiece
  exact (h name hname).1

/-- Parts that lead down are taken off if they come first. -/
theorem dropParts_eq {base pieces : List (List Char)} (h : ∀ piece ∈ pieces, leads piece) :
    dropParts base pieces = if base <+: pieces then some (pieces.drop base.length) else none := by
  induction base generalizing pieces with
  | nil => simp [dropParts]
  | cons part base ih =>
      cases pieces with
      | nil => simp [dropParts]
      | cons piece pieces =>
          obtain ⟨hpiece, hlater⟩ := List.forall_mem_cons.1 h
          rw [dropParts, if_neg (by simp [hpiece]), List.length_cons, List.drop_succ_cons]
          by_cases he : piece = part
          · rw [if_pos he, ih hlater, he]
            simp only [List.cons_prefix_cons, true_and]
          · rw [if_neg he, if_neg fun hp => he (List.cons_prefix_cons.1 hp).1.symm]

theorem filter_leads_ofPlace (h : ∀ name ∈ place, IsName name) :
    (ofPlace place).pieces.filter leads = place.map String.toList := by
  by_cases hne : place = []
  · subst hne
    rfl
  · rw [pieces_ofPlace h hne, List.filter_eq_self]
    exact leads_of_mem_map h

theorem trimEnd_dropWhile_names (h : ∀ name ∈ names, IsName name) :
    trimEnd ((names.map String.toList).dropWhile (!leads ·)) = names.map String.toList := by
  cases names with
  | nil => rfl
  | cons name names =>
      have hleads := (h name List.mem_cons_self).1
      rw [List.map_cons, List.dropWhile_cons_of_neg (by simp [hleads]), ← List.map_cons,
        trimEnd_names h]

/-- A path is seen from the directory of a place by the names that lead there from it. -/
theorem from?_ofPlace (h : ∀ name ∈ place, IsName name) (hdir : ∀ name ∈ names, IsName name) :
    (ofPlace place).from? (ofPlace names) =
      if names <+: place then some (ofPieces .unsaid ((place.drop names.length).map String.toList))
      else none := by
  have hunsaid : (ofPlace names).spelled ≠ (.unsaid, []) := by
    intro e
    have hstart := congrArg Prod.fst e
    rw [spelled, start_ofPlace] at hstart
    cases hstart
  unfold from?
  rw [if_neg hunsaid, start_ofPlace, start_ofPlace, if_neg (fun e => e rfl), filter_leads_ofPlace hdir]
  by_cases hne : place = []
  · subst hne
    cases names with
    | nil => rfl
    | cons name names => rw [if_neg (by simp)]; rfl
  · rw [pieces_ofPlace h hne, dropParts_eq (leads_of_mem_map h)]
    simp only [List.prefix_map_iff_of_injective @String.toList_injective]
    split
    · have hdrop : ∀ name ∈ place.drop names.length, IsName name := fun name hn =>
        h name (List.mem_of_mem_drop hn)
      rw [Option.map_some, List.length_map, ← List.map_drop, trimEnd_dropWhile_names hdrop]
    · rfl

/-- What is joined to a path takes no slash if the last piece of the path is empty. -/
theorem takesNoSlash_iff : (p.text.isEmpty || p.hasEndSlash) = true ↔
    (splitPieces p.text.toList).getLast? = some [] := by
  rw [getLast?_splitPieces, Bool.or_eq_true_iff, hasEndSlash, String.isEmpty_iff, decide_eq_true_eq,
    String.toList_eq_nil_iff]

/-- A path that does not start at the root has its pieces behind those to which it is joined. -/
theorem splitPieces_join (p : Path) {q : Path} (h : q.isAbsolute = false) :
    splitPieces (p.join q).text.toList = splitComponents p.text.toList ++ splitPieces q.text.toList := by
  have hsplit : ∀ s later, splitPieces (s ++ '/' :: later) = splitPieces s ++ splitPieces later :=
    fun s later => List.splitOn_append_cons_self (a := '/') s later
  rw [join, if_neg (by simp [h]), splitComponents]
  by_cases hlast : (splitPieces p.text.toList).getLast? = some []
  · rw [if_pos (takesNoSlash_iff.2 hlast), if_pos hlast, String.toList_append]
    rcases (getLast?_splitPieces _).1 hlast with hempty | hslash
    · rw [hempty]
      rfl
    · obtain ⟨s, hs⟩ := List.getLast?_eq_some_iff.1 hslash
      have hroot : splitPieces [] = [[]] := rfl
      rw [hs, List.append_assoc, List.singleton_append, hsplit, hsplit, hroot, List.dropLast_concat]
  · have hslash : ("/" : String).toList = ['/'] := rfl
    rw [if_neg (fun h => hlast (takesNoSlash_iff.1 h)), if_neg hlast, String.toList_append,
      String.toList_append, hslash, List.append_assoc, List.singleton_append, hsplit]

/-- A path that does not start at the root leads on from the directory to which it is joined. -/
theorem place_join (p : Path) {q : Path} (h : q.isAbsolute = false) :
    (p.join q).place = (splitPieces q.text.toList).foldl Place.visit p.place := by
  have hcomponents : (splitComponents p.text.toList).foldl Place.visit [] = p.place := by
    rw [place_eq]
    rcases splitPieces_eq p.text.toList with hp | hp
    · rw [hp]
    · rw [hp, List.foldl_concat]
      rfl
  rw [place_eq, splitPieces_join p h, List.foldl_append, hcomponents]

theorem ofPieces_eq (start : PathStart) (names : List String) :
    ofPieces start (names.map String.toList) =
      ⟨String.ofList start.chars ++ "/".intercalate names⟩ := by
  have hslash : ("/" : String).toList = ['/'] := rfl
  rw [ofPieces, String.ofList_append, ← hslash, ← String.toList_intercalate, String.ofList_toList]

theorem ofPlace_eq (place : Place) : ofPlace place = ⟨"/" ++ "/".intercalate place⟩ :=
  ofPieces_eq .root place

theorem ofPieces_unsaid_eq (names : List String) :
    ofPieces .unsaid (names.map String.toList) = ⟨"/".intercalate names⟩ := by
  rw [ofPieces_eq]
  exact congrArg Path.mk String.empty_append

/-- The characters of a row of names are those of the names, slashes aside. -/
theorem mem_row {c : Char} (hc : c ≠ '/') {names : List String} :
    c ∈ ("/".intercalate names).toList ↔ ∃ name ∈ names, c ∈ name.toList := by
  have hslash : ("/" : String).toList = ['/'] := rfl
  rw [String.toList_intercalate, hslash, Text.mem_intercalate hc]
  simp only [List.mem_map, exists_exists_and_eq_and]

/-! ### Normal paths -/

theorem IsNormal.eq_ofPlace (h : p.IsNormal) : p = ofPlace p.place := h.symm

theorem IsNormal.isAbsolute (h : p.IsNormal) : p.isAbsolute := by
  rw [h.eq_ofPlace, Path.isAbsolute, start_ofPlace]
  rfl

/-- The directory of a normal path is normal. -/
theorem IsNormal.of_parent? (h : p.IsNormal) (hdir : p.parent? = some dir) : dir.IsNormal := by
  have hnames : ∀ name ∈ p.place, IsName name := fun _ hn => isName_of_mem_place hn
  have hdrop : ∀ name ∈ p.place.dropLast, IsName name := fun name hn =>
    hnames name ((List.dropLast_prefix p.place).subset hn)
  have hne : p.place ≠ [] := by
    intro e
    rw [h.eq_ofPlace, e] at hdir
    cases hdir
  rw [h.eq_ofPlace, parent?_ofPlace hnames hne] at hdir
  cases hdir
  rw [IsNormal, normalize, place_ofPlace hdrop]

theorem IsNormal.from? (h : p.IsNormal) (hdir : dir.IsNormal) :
    p.from? dir = if dir.place <+: p.place
      then some (ofPieces .unsaid ((p.place.drop dir.place.length).map String.toList)) else none := by
  have hnames : ∀ q : Path, ∀ name ∈ q.place, IsName name := fun _ _ hn => isName_of_mem_place hn
  have hfrom := from?_ofPlace (hnames p) (hnames dir)
  rwa [← h.eq_ofPlace, ← hdir.eq_ofPlace] at hfrom

theorem isAbsolute_iff : p.isAbsolute ↔ p.text.toList.head? = some '/' := by
  unfold isAbsolute start PathStart.split
  split
  · rename_i hs
    simp [hs]
  · rename_i hs
    simp [hs]
  · rename_i hs
    simp [hs]
  · rename_i hroot _ _
    simp only [decide_eq_true_eq, reduceCtorEq, false_iff]
    intro hs
    obtain ⟨s, hs⟩ := List.head?_eq_some_iff.1 hs
    exact hroot s hs

/-- A row of names does not start at the root. -/
theorem isAbsolute_ofPieces_unsaid (h : ∀ name ∈ names, IsName name) :
    (ofPieces .unsaid (names.map String.toList)).isAbsolute = false := by
  rw [Bool.eq_false_iff, ne_eq, isAbsolute_iff, ofPieces, String.toList_ofList]
  cases names with
  | nil => nofun
  | cons name names =>
      obtain ⟨hleads, -, hslash⟩ := h name List.mem_cons_self
      cases hname : name.toList with
      | nil =>
          rw [hname] at hleads
          cases hleads
      | cons c s =>
          -- the row begins with its first name, which has no slash
          have hhead : (PathStart.unsaid.chars ++ ['/'].intercalate ((name :: names).map
              String.toList)).head? = some c := by
            cases names <;> simp [PathStart.chars, hname, List.intercalate_cons_cons]
          rw [hhead]
          intro hc
          rw [hname, Option.some.inj hc] at hslash
          exact hslash List.mem_cons_self

/-- A row of names leads on from the directory to which it is joined. -/
theorem place_join_names (p : Path) (h : ∀ name ∈ names, IsName name) :
    (p.join (ofPieces .unsaid (names.map String.toList))).place = p.place ++ names := by
  rw [place_join p (isAbsolute_ofPieces_unsaid h), ofPieces, String.toList_ofList]
  by_cases hne : names = []
  · subst hne
    exact (List.append_nil _).symm
  · rw [PathStart.chars, List.nil_append, splitPieces_intercalate h hne, foldl_visit_names h]

end Path

end UtilityCss
