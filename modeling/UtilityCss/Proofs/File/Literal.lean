import UtilityCss.File.Glob
import UtilityCss.Proofs.File.Respelled

/-!
# Patterns without special characters

A pattern with no `?`, `*` and `[` is a row of names that are looked up one after the other. It matches
one path at most: the path that it spells, joined anew from its pieces, if there is a file
(`Tree.filesMatching_of_isPlain`). A pattern that does not start at the root is looked up from `.`, where
names stand alone; so it is lost if the first of them is empty (`Path.IsAnchored`).
-/

namespace UtilityCss

/-! ### Patterns of characters -/

namespace Pattern

variable {s : List Char}

/-- No character of a text is special in patterns. -/
def IsPlain (s : List Char) : Prop := '?' ∉ s ∧ '*' ∉ s ∧ '[' ∉ s

instance : DecidablePred IsPlain := fun s =>
  inferInstanceAs (Decidable ('?' ∉ s ∧ '*' ∉ s ∧ '[' ∉ s))

theorem IsPlain.of_subset {l : List Char} (h : IsPlain s) (hl : l ⊆ s) : IsPlain l :=
  ⟨fun hc => h.1 (hl hc), fun hc => h.2.1 (hl hc), fun hc => h.2.2 (hl hc)⟩

theorem isPlain_append {l : List Char} : IsPlain (s ++ l) ↔ IsPlain s ∧ IsPlain l := by
  simp only [IsPlain, List.mem_append, not_or]
  tauto

/-- The pattern of a text in which no character is special. -/
def literal (s : List Char) : Pattern := ⟨s.map .char⟩

theorem scan_of_isPlain (h : IsPlain s) (position : Nat) (atStart : Bool) :
    PatternToken.scan position atStart s = .ok (s.map .char) := by
  induction s generalizing position atStart with
  | nil => rw [PatternToken.scan]; rfl
  | cons c s ih =>
      have hs : IsPlain s := h.of_subset (List.subset_cons_self c s)
      obtain ⟨hone, hany, hset⟩ := h
      rw [PatternToken.scan, ih hs]
      · rfl
      · rintro rfl
        exact hone List.mem_cons_self
      · rintro rfl
        exact hany List.mem_cons_self
      · rintro rfl
        exact hset List.mem_cons_self

theorem ofText_of_isPlain (h : IsPlain s) : ofText s = .ok (literal s) := by
  rw [ofText, scan_of_isPlain h]
  rfl

theorem mapM_ofText_of_isPlain {pieces : List (List Char)} (h : ∀ piece ∈ pieces, IsPlain piece) :
    pieces.mapM ofText = .ok (pieces.map literal) := by
  induction pieces with
  | nil => rfl
  | cons piece pieces ih =>
      obtain ⟨hpiece, hlater⟩ := List.forall_mem_cons.1 h
      rw [List.mapM_cons, ofText_of_isPlain hpiece, ih hlater]
      rfl

theorem isRecursive_literal (s : List Char) : (literal s).isRecursive = false := by
  simp [isRecursive, literal]

theorem literal?_literal (s : List Char) : (literal s).literal? = some (String.ofList s) := by
  have hchars : (s.map PatternToken.char).mapM literal?.char? = some s := by
    induction s with
    | nil => rfl
    | cons c s ih =>
        rw [List.map_cons, List.mapM_cons, ih]
        rfl
  rw [literal?, literal, hchars]
  rfl

end Pattern

/-! ### Where patterns are looked up -/

namespace Path

variable {p : Path} {piece : List Char}

/-- A path starts at the root, or no empty piece is behind the dots at its start. -/
def IsAnchored (q : Path) : Prop :=
  q.isAbsolute ∨ (splitComponents q.text.toList).find? (· ≠ ['.']) ≠ some []

instance : DecidablePred IsAnchored := fun _ => inferInstanceAs (Decidable (_ ∨ _))

/-- Names in the directory are joined to its path: it is written out, and not as `.`. -/
def JoinsNames (p : Path) : Prop := p.text ≠ "" ∧ p.text ≠ "."

theorem JoinsNames.join_piece (hp : p.JoinsNames) (h : '/' ∉ piece) :
    (p.join ⟨String.ofList piece⟩).JoinsNames := by
  have hprefix : p.text.toList <+: (p.join ⟨String.ofList piece⟩).text.toList :=
    prefix_along (List.forall_mem_singleton.2 h) p
  constructor
  · intro e
    rw [e] at hprefix
    exact hp.1 (String.toList_eq_nil_iff.1 (List.prefix_nil.1 hprefix))
  · intro e
    rw [e] at hprefix
    rcases List.prefix_cons_iff.1 hprefix with hnil | ⟨l, hdot, hl⟩
    · exact hp.1 (String.toList_eq_nil_iff.1 hnil)
    · rw [List.prefix_nil.1 hl] at hdot
      exact hp.2 (String.toList_inj.1 hdot)

end Path

/-! ### What a pattern without special characters matches -/

namespace PathPattern
open UtilityCss.Tree

variable {t : Tree} {p q : Path} {piece : List Char} {pieces : List (List Char)}

theorem child_of_joinsNames (hp : p.JoinsNames) (name : String) : child p name = p.join ⟨name⟩ := by
  rw [child, if_neg hp.2]

/-- A name that is written out is looked up. -/
theorem expand_literal (t : Tree) (p : Path) (piece : List Char) (rest : List Pattern) :
    expand t false p (.literal piece :: rest) =
      if leadsOn t p (String.ofList piece) then expand t false (child p (String.ofList piece)) rest
      else [] := by
  rw [expand]
  simp only [Pattern.isRecursive_literal, Pattern.literal?_literal, Bool.false_eq_true, if_false]

/-- Where there is a file at the end, every piece leads on. -/
theorem leadsOn_of_isFile (hslash : ∀ q ∈ piece :: pieces, '/' ∉ q) (hp : p.JoinsNames)
    (hfile : t.isFile (p.along (piece :: pieces))) : leadsOn t p (String.ofList piece) := by
  obtain ⟨hpiece, hlater⟩ := List.forall_mem_cons.1 hslash
  unfold leadsOn
  split
  · exact isDirectory_of_isFile_along hslash hp.1 hfile
  · rw [child_of_joinsNames hp]
    exact exists?_of_isFile_along hlater (hp.join_piece hpiece).1 hfile

/-- Names that are written out match the path that they spell, if there is something to match. -/
theorem filter_expand_literals (hp : p.JoinsNames) (hslash : ∀ piece ∈ pieces, '/' ∉ piece) :
    (expand t false p (pieces.map Pattern.literal)).filter t.isFile =
      if t.isFile (p.along pieces) then [p.along pieces] else [] := by
  induction pieces generalizing p with
  | nil =>
      rw [List.map_nil, expand, Bool.false_and, if_neg Bool.false_ne_true, List.filter_singleton,
        Bool.cond_eq_ite]
      rfl
  | cons piece pieces ih =>
      obtain ⟨hpiece, hlater⟩ := List.forall_mem_cons.1 hslash
      rw [List.map_cons, expand_literal]
      by_cases hleads : leadsOn t p (String.ofList piece)
      · rw [if_pos hleads, child_of_joinsNames hp, ih (hp.join_piece hpiece) hlater]
        rfl
      · rw [if_neg hleads, List.filter_nil, if_neg fun h => hleads (leadsOn_of_isFile hslash hp h)]

theorem isDirectory_here (t : Tree) : t.isDirectory ⟨"."⟩ := rfl

/-- From `.`, a name stands alone. -/
theorem child_here (name : String) : child ⟨"."⟩ name = ⟨name⟩ := if_pos rfl

/-- The first name is looked up alone, the others from there. -/
theorem filter_expand_first (hslash : ∀ q ∈ piece :: pieces, '/' ∉ q)
    (hjoins : (Path.mk (String.ofList piece)).JoinsNames) :
    (expand t false ⟨"."⟩ ((piece :: pieces).map Pattern.literal)).filter t.isFile =
      if t.isFile ((Path.mk "").along (piece :: pieces)) then [(Path.mk "").along (piece :: pieces)]
      else [] := by
  obtain ⟨hpiece, hlater⟩ := List.forall_mem_cons.1 hslash
  have hjoin : (Path.mk "").join ⟨String.ofList piece⟩ = ⟨String.ofList piece⟩ := by
    rw [Path.join, if_neg (by simp [Path.isAbsolute_piece hpiece]), if_pos (by simp),
      String.empty_append]
  rw [List.map_cons, expand_literal, Path.along_cons, hjoin, child_here]
  by_cases hleads : leadsOn t ⟨"."⟩ (String.ofList piece)
  · rw [if_pos hleads, filter_expand_literals hjoins hlater]
  · rw [if_neg hleads, List.filter_nil, if_neg fun hfile => hleads ?_]
    unfold leadsOn
    split
    · exact isDirectory_here t
    · rw [child_here]
      exact exists?_of_isFile_along hlater hjoins.1 hfile

/-- Names that are written out are looked up from `.`: dots at the start stay there, and an empty name
is not there. -/
theorem filter_expand_here (hslash : ∀ piece ∈ pieces, '/' ∉ piece) :
    (expand t false ⟨"."⟩ (pieces.map Pattern.literal)).filter t.isFile =
      if pieces.find? (· ≠ ['.']) ≠ some [] ∧ t.isFile ((Path.mk "").along (Path.dropDots pieces))
      then [(Path.mk "").along (Path.dropDots pieces)] else [] := by
  induction pieces with
  | nil =>
      have hnone : t.isFile ⟨""⟩ = false := rfl
      have hfile : t.isFile ⟨"."⟩ = false := rfl
      rw [List.map_nil, expand, Bool.false_and, if_neg Bool.false_ne_true, List.filter_singleton, hfile,
        if_neg (by simp [Path.dropDots, Path.along, hnone])]
      rfl
  | cons piece pieces ih =>
      by_cases hdot : piece = ['.']
      · subst hdot
        have hleads : leadsOn t ⟨"."⟩ (String.ofList ['.']) := isDirectory_here t
        rw [List.map_cons, expand_literal, if_pos hleads, child_here,
          List.find?_cons_of_neg (by simp)]
        exact ih (List.forall_mem_cons.1 hslash).2
      have hfind : (piece :: pieces).find? (· ≠ ['.']) = some piece :=
        List.find?_cons_of_pos (by simpa using hdot)
      have hdrop : Path.dropDots (piece :: pieces) = piece :: pieces :=
        List.dropWhile_cons_of_neg (by simpa using hdot)
      rw [hfind, hdrop]
      by_cases hempty : piece = []
      · subst hempty
        have hleads : leadsOn t ⟨"."⟩ (String.ofList []) = false := rfl
        rw [List.map_cons, expand_literal, hleads, if_neg Bool.false_ne_true, if_neg (by simp)]
        rfl
      · have hjoins : (Path.mk (String.ofList piece)).JoinsNames := by
          constructor
          · exact fun e => hempty (String.ofList_inj.1 (e.trans String.ofList_nil.symm))
          · exact fun e => hdot (String.ofList_inj.1 e)
        rw [filter_expand_first hslash hjoins]
        simp [hempty]

/-- A name in a directory is the last name of something in the tree. -/
theorem mem_namesIn {name : String} (h : name ∈ namesIn t p) :
    ∃ e ∈ t.nodes.entries, e.1.getLast? = some name := by
  unfold namesIn at h
  split at h
  · obtain ⟨⟨place, n⟩, hbelow, hname⟩ := List.mem_filterMap.1 h
    obtain ⟨e, he, hrest⟩ := List.mem_filterMap.1 hbelow
    refine ⟨e, List.mem_mergeSort.1 he, ?_⟩
    -- the place of the name is that of the directory and the name alone
    split at hname
    · rename_i last hlast
      cases hname
      split at hrest
      · cases hrest
      · split at hrest
        · cases hrest
          change e.1.drop _ = [name] at hlast
          rw [← List.take_append_drop _ e.1, hlast, List.getLast?_concat]
        · cases hrest
    · cases hname
  · cases h

/-- A name with wildcards that matches no name matches nothing. -/
theorem expand_of_no_match {q : Pattern} {d : Bool} {rest : List Pattern}
    (hrecursive : q.isRecursive = false) (hliteral : q.literal? = none) (hdot : dotEntries q = [])
    (hnames : ∀ name ∈ namesIn t p, q.isMatch name = false) : expand t d p (q :: rest) = [] := by
  have hnone : (namesIn t p).filter q.isMatch = [] :=
    List.filter_eq_nil_iff.2 fun name hname => by simp [hnames name hname]
  rw [expand]
  simp [hrecursive, hliteral, hdot, hnone]

/-- The pattern of a path in which no character is special. -/
def literal (q : Path) : PathPattern where
  isAbsolute    := q.isAbsolute
  components    := (Path.splitComponents
    (if q.isAbsolute then q.text.toList.drop 1 else q.text.toList)).map Pattern.literal
  directoryOnly := q.hasEndSlash

/-- A text without special characters is read as the names in it. -/
theorem ofText_of_isPlain (hplain : Pattern.IsPlain q.text.toList) :
    ofText q.text = .ok (literal q) := by
  have hbody : (if q.isAbsolute then q.text.toList.drop 1 else q.text.toList) ⊆ q.text.toList := by
    split
    · exact List.drop_subset 1 _
    · exact List.Subset.refl _
  unfold ofText
  rw [Pattern.ofText_of_isPlain hplain]
  show (do
    let components ← (Path.splitComponents
      (if q.isAbsolute then q.text.toList.drop 1 else q.text.toList)).mapM Pattern.ofText
    return (⟨q.isAbsolute, components, q.hasEndSlash⟩ : PathPattern)) = _
  rw [Pattern.mapM_ofText_of_isPlain fun piece hpiece =>
    hplain.of_subset (List.Subset.trans (Path.subset_of_mem_splitComponents hpiece) hbody)]
  rfl

/-- A path whose last piece is not empty is found by its pieces. -/
theorem filter_paths_literal (hlast : (Path.splitPieces q.text.toList).getLast? ≠ some []) :
    (paths t (literal q)).filter t.isFile =
      if q.IsAnchored ∧ t.isFile q.respelled then [q.respelled] else [] := by
  have hend : q.hasEndSlash = false :=
    decide_eq_false fun h => hlast ((Path.getLast?_splitPieces _).2 (.inr h))
  rw [paths, literal, hend]
  by_cases hq : q.isAbsolute
  · obtain ⟨s, hs, hpieces, hsplit⟩ := Path.exists_toList_of_isAbsolute hq
    have hdrop : Path.splitComponents (q.text.toList.drop 1) = q.pieces := by
      rw [hs, hpieces, List.drop_one, List.tail_cons]
      refine if_neg fun h => hlast ?_
      rw [hsplit, List.getLast?_cons, h]
      rfl
    have hslash : ∀ piece ∈ q.pieces, '/' ∉ piece := fun _ hp =>
      Path.slash_notMem_of_mem_splitPieces hp
    have hroot : (Path.mk "/").JoinsNames := ⟨by decide, by decide⟩
    rw [if_pos hq, hdrop, if_pos hq, filter_expand_literals hroot hslash, Path.respelled, if_pos hq]
    simp [Path.IsAnchored, hq]
  · have hsplit : Path.splitComponents q.text.toList = Path.splitPieces q.text.toList := if_neg hlast
    have hslash : ∀ piece ∈ Path.splitPieces q.text.toList, '/' ∉ piece := fun _ hp =>
      Path.slash_notMem_of_mem_splitPieces hp
    rw [if_neg hq, if_neg hq, hsplit, filter_expand_here hslash, Path.respelled, if_neg hq]
    simp [Path.IsAnchored, hq, hsplit]

end PathPattern

/-- **A pattern without special characters matches the file that it names.** -/
theorem Tree.filesMatching_of_isPlain {q : Path} (t : Tree) (hplain : Pattern.IsPlain q.text.toList)
    (hlast : (Path.splitPieces q.text.toList).getLast? ≠ some []) : t.filesMatching [q.text] =
      .ok (if q.IsAnchored ∧ t.isFile q.respelled then [q.respelled] else []) := by
  have hread : [q.text].mapM PathPattern.ofText = .ok [.literal q] := by
    rw [List.mapM_cons, PathPattern.ofText_of_isPlain hplain]
    rfl
  rw [filesMatching, hread]
  show Except.ok (Path.distinct _) = _
  rw [List.flatMap_singleton, PathPattern.filter_paths_literal hlast]
  split
  · rfl
  · rfl

end UtilityCss
