import UtilityCss.Proofs.Text
import UtilityCss.Token

/-!
# Tokens as they are spelled

A token is spelled from a media request, further segments, a mark and a base (`Spelling`). Reading
divides the text at its colons, which gives the segments back (`Spelling.split_text`), and then asks of
the first segment alone whether it is a media request. It answers as the spelling was meant
(`media?_of_fits`), unless a name of the table reads in two ways: `max-lg` is a bound from above if
`lg` is a breakpoint, whatever `max-lg` itself is, and a first segment that reads as a request is one.
Spellings that avoid both fit their table (`Spelling.Fits`), and reading gives them back
(`parse_spelling`).
-/

namespace UtilityCss

namespace Token

variable {t : BreakpointTable} {s name : String}

/-- What a token is put together from. -/
structure Spelling where
  media     : Option Media
  /-- The segments between the media request and the base. -/
  further   : List String
  important : Bool
  base      : String

namespace Spelling

/-- The segment of a media request. -/
def mediaSegment (m : Media) : String := if m.isMax then "max-" ++ m.name else m.name

/-- The segments before the base. -/
def modifiers (w : Spelling) : List String := (w.media.map mediaSegment).toList ++ w.further

/-- The segment of the base, with its mark. -/
def lastSegment (w : Spelling) : String := if w.important then "!" ++ w.base else w.base

def text (w : Spelling) : String := ":".intercalate (w.modifiers ++ [w.lastSegment])

/-- The spelling is to be read in the way in which it is meant. -/
structure Fits (t : BreakpointTable) (w : Spelling) : Prop where
  known   : ∀ m ∈ w.media, t.contains m.name
  plain   : ∀ m ∈ w.media, m.isMax = false → ∀ name, t.contains name → m.name ≠ "max-" ++ name
  noMedia : w.media = none → ∀ s ∈ w.further.head?,
    t.contains s = false ∧ ∀ name, t.contains name → s ≠ "max-" ++ name
  noMark  : w.important = false → w.base.toList.head? ≠ some '!'
  noColon : (∀ m ∈ w.media, ':' ∉ m.name.toList) ∧ (∀ s ∈ w.further, ':' ∉ s.toList) ∧
    ':' ∉ w.base.toList

end Spelling

/-! ### Segments -/

/-- A row of segments with colons between is divided into them. -/
theorem split_segments {segments : List String} {last : String} (h : ∀ s ∈ segments, ':' ∉ s.toList)
    (hlast : ':' ∉ last.toList) :
    Text.split ':' (":".intercalate (segments ++ [last])) = segments ++ [last] := by
  have hcolon : (":" : String).toList = [':'] := rfl
  have hall : ∀ l ∈ (segments ++ [last]).map String.toList, ':' ∉ l := by
    intro l hl
    obtain ⟨s, hs, rfl⟩ := List.mem_map.1 hl
    rcases List.mem_append.1 hs with hs | hs
    · exact h s hs
    · rw [List.mem_singleton.1 hs]
      exact hlast
  rw [Text.split, String.toList_intercalate, hcolon, List.splitOn_intercalate ':' hall (by simp),
    List.map_map]
  simp [Function.comp_def]

/-! ### Names behind `max-` -/

theorem maxName?_eq_some_iff : maxName? s = some name ↔ s = "max-" ++ name := by
  rw [maxName?, Option.map_eq_some_iff, ← String.toList_inj, String.toList_append]
  constructor
  · rintro ⟨r, hr, rfl⟩
    simpa using Text.dropPrefix?_eq_some_iff.1 hr
  · intro h
    exact ⟨name.toList, Text.dropPrefix?_eq_some_iff.2 h, String.ofList_toList⟩

theorem isSome_maxName?_iff : (maxName? s).isSome ↔ "max-".toList <+: s.toList := by
  rw [Option.isSome_iff_exists]
  constructor
  · rintro ⟨name, h⟩
    rw [maxName?_eq_some_iff.1 h, String.toList_append]
    exact List.prefix_append _ _
  · rintro ⟨r, hr⟩
    refine ⟨String.ofList r, maxName?_eq_some_iff.2 (String.toList_inj.1 ?_)⟩
    simpa using hr.symm

theorem looksLikeMedia_eq (t : BreakpointTable) (s : String) :
    looksLikeMedia t s = (t.contains s || "max-".toList.isPrefixOf s.toList) := by
  rw [looksLikeMedia]
  congr 1
  rw [Bool.eq_iff_iff, isSome_maxName?_iff, List.isPrefixOf_iff_prefix]

/-! ### The base -/

/-- A base that does not begin with a mark is told apart from its mark. -/
theorem splitImportant_marked {important : Bool} {base : String}
    (h : important = false → base.toList.head? ≠ some '!') :
    splitImportant (if important then "!" ++ base else base) = (base, important) := by
  unfold splitImportant
  cases important with
  | true => simp [Text.dropPrefix?]
  | false =>
      have hmark := h rfl
      cases hb : base.toList with
      | nil => simp [hb, Text.dropPrefix?]
      | cons c r =>
          have hc : '!' ≠ c := by
            rintro rfl
            exact hmark (by rw [hb]; rfl)
          simp [hb, Text.dropPrefix?, hc]

/-! ### The first segment -/

theorem media?_max (h : t.contains name) : media? t ("max-" ++ name) = some ⟨name, true⟩ := by
  rw [media?, maxName?_eq_some_iff.2 rfl]
  exact if_pos h

/-- A segment that is no bound from above is a media request if it is a breakpoint. -/
theorem media?_of_ne (h : ∀ name, t.contains name → s ≠ "max-" ++ name) :
    media? t s = if t.contains s then some ⟨s, false⟩ else none := by
  rw [media?]
  split
  · rename_i n hn
    have hnot : ¬ t.contains n := fun hc => h n hc (maxName?_eq_some_iff.1 hn)
    exact if_neg hnot
  · rfl

namespace Spelling

variable {w : Spelling}

theorem media?_mediaSegment (h : w.Fits t) {m : Media} (hm : m ∈ w.media) :
    media? t (mediaSegment m) = some m := by
  obtain ⟨name, isMax⟩ := m
  have hknown := h.known _ hm
  cases isMax with
  | true => exact media?_max hknown
  | false => exact (media?_of_ne (h.plain _ hm rfl)).trans (if_pos hknown)

/-- The first segment is read as the request that was meant, or as none. -/
theorem media?_of_fits (h : w.Fits t) : w.modifiers.head?.bind (media? t) = w.media := by
  cases hm : w.media with
  | some m =>
      rw [modifiers, hm]
      exact media?_mediaSegment h hm
  | none =>
      rw [modifiers, hm, Option.map_none, Option.toList_none, List.nil_append]
      cases hs : w.further.head? with
      | none => rfl
      | some s =>
          obtain ⟨hunknown, hmax⟩ := h.noMedia hm s hs
          rw [Option.bind_some, media?_of_ne hmax, hunknown]
          rfl

theorem colon_not_mem_modifiers (h : w.Fits t) : ∀ s ∈ w.modifiers, ':' ∉ s.toList := by
  obtain ⟨hmedia, hfurther, -⟩ := h.noColon
  intro s hs
  rcases List.mem_append.1 hs with hs | hs
  · obtain ⟨m, hm, rfl⟩ := Option.map_eq_some_iff.1 (Option.mem_toList.1 hs)
    have hname := hmedia m hm
    unfold mediaSegment
    split <;> simp [hname]
  · exact hfurther s hs

theorem colon_not_mem_lastSegment (h : w.Fits t) : ':' ∉ w.lastSegment.toList := by
  obtain ⟨-, -, hbase⟩ := h.noColon
  unfold lastSegment
  split <;> simp [hbase]

/-- The text is divided into the segments that it was put together from. -/
theorem split_text (h : w.Fits t) : Text.split ':' w.text = w.modifiers ++ [w.lastSegment] :=
  split_segments (colon_not_mem_modifiers h) (colon_not_mem_lastSegment h)

theorem splitImportant_lastSegment (h : w.Fits t) :
    splitImportant w.lastSegment = (w.base, w.important) := splitImportant_marked h.noMark

/-- The segments that are read for pseudo-classes are those behind the media request. -/
theorem further_eq (w : Spelling) :
    (if w.media.isSome then w.modifiers.tail else w.modifiers) = w.further := by
  unfold modifiers
  cases w.media <;> rfl

theorem tail_modifiers (w : Spelling) :
    w.modifiers.tail = if w.media.isSome then w.further else w.further.tail := by
  unfold modifiers
  cases w.media <;> rfl

end Spelling

/-! ### Pseudo-classes -/

theorem map_name_ofName? (s : String) : (Pseudo.ofName? s).map Pseudo.name =
    if s ∈ Pseudo.all.map Pseudo.name then some s else none := by
  rw [Pseudo.ofName?]
  cases hp : Pseudo.all.find? (·.name = s) with
  | some p =>
      have hname : p.name = s := by simpa using List.find?_some hp
      rw [if_pos (List.mem_map.2 ⟨p, p.mem_all, hname⟩), Option.map_some, hname]
  | none =>
      have hnone : s ∉ Pseudo.all.map Pseudo.name := by
        intro hs
        obtain ⟨p, hmem, rfl⟩ := List.mem_map.1 hs
        simpa using List.find?_eq_none.1 hp p hmem
      rw [if_neg hnone, Option.map_none]

/-- The last pseudo-class is the last segment that is the name of one. -/
theorem map_name_lastPseudo? (l : List String) : (lastPseudo? l).map Pseudo.name =
    (l.filter fun s => s ∈ Pseudo.all.map Pseudo.name).getLast? := by
  rw [lastPseudo?, ← List.getLast?_map, List.map_filterMap]
  congr 1
  induction l with
  | nil => rfl
  | cons s l ih =>
      rw [List.filterMap_cons, map_name_ofName?, List.filter_cons, ih]
      by_cases hs : s ∈ Pseudo.all.map Pseudo.name <;> simp [hs]

/-! ### Reading a spelling -/

/-- The report of a media request that is not the first segment. -/
def misplacedMessage (segment : String) : String :=
  "Media prefix \"" ++ segment ++ "\" must appear only as the first segment"

theorem parse_text {w : Spelling} (h : w.Fits t) : parse t w.text =
    (⟨w.media, lastPseudo? w.further, w.base, w.important⟩,
      (w.modifiers.tail.filter (looksLikeMedia t)).map fun s => .info (misplacedMessage s) w.text) := by
  have hsplit := Spelling.split_text h
  have hmedia := Spelling.media?_of_fits h
  have hlast := Spelling.splitImportant_lastSegment h
  simp only [parse, hsplit, List.dropLast_concat, List.getLast?_concat, Option.getD_some, hlast,
    hmedia, Spelling.further_eq]
  rfl

/-- **Reading undoes spelling.**  Whatever the table, a spelling that fits it is read back from its text:
the media request with its bound, the base and the mark are those that it was put together from, and
the pseudo-class is the last of the further segments that names one. Each further segment behind the
first segment of all that is a breakpoint or begins with `max-` is reported, in order, and nothing else
is. -/
theorem parse_spelling (w : Spelling) (h : w.Fits t) :
    (parse t w.text).1.media = w.media ∧
    (parse t w.text).1.pseudo.map Pseudo.name =
      (w.further.filter fun s => s ∈ Pseudo.all.map Pseudo.name).getLast? ∧
    (parse t w.text).1.name = w.base ∧ (parse t w.text).1.important = w.important ∧
    (parse t w.text).2 =
      ((if w.media.isSome then w.further else w.further.tail).filter fun s =>
        t.contains s || "max-".toList.isPrefixOf s.toList).map fun s =>
          .info ("Media prefix \"" ++ s ++ "\" must appear only as the first segment") w.text := by
  rw [parse_text h]
  refine ⟨rfl, map_name_lastPseudo? w.further, rfl, rfl, ?_⟩
  rw [Spelling.tail_modifiers, List.filter_congr fun s _ => looksLikeMedia_eq t s]
  rfl

/-- A table with a breakpoint that is named like a bound, one that is named like a pseudo-class, and one
without a name. -/
def ambiguous : BreakpointTable :=
  ((BreakpointTable.default.insert "max-lg" 100).insert "hover" 200).insert "" 300

/-- A bound from above, behind it an empty segment and misplaced requests, and a base that begins with
another mark. -/
def crowded : Spelling :=
  ⟨some ⟨"lg", true⟩, ["focus", "", "max-", "hover", "print"], true, "!p-[1px]"⟩

theorem fits_crowded : crowded.Fits ambiguous where
  known := by decide +kernel
  plain := by simp [crowded]
  noMedia := nofun
  noMark := nofun
  noColon := by decide +kernel

theorem parse_spelling_crowded :
    crowded.text = "max-lg:focus::max-:hover:print:!!p-[1px]" ∧
    (parse ambiguous crowded.text).1.media = some ⟨"lg", true⟩ ∧
    (parse ambiguous crowded.text).1.pseudo.map Pseudo.name = some "hover" ∧
    (parse ambiguous crowded.text).1.name = "!p-[1px]" ∧
    (parse ambiguous crowded.text).2 = ["", "max-", "hover"].map fun s =>
      .info ("Media prefix \"" ++ s ++ "\" must appear only as the first segment") crowded.text := by
  obtain ⟨hmedia, hpseudo, hname, -, hfound⟩ := parse_spelling crowded fits_crowded
  exact ⟨by decide +kernel, hmedia, hpseudo.trans (by decide +kernel), hname, hfound⟩

/-! ### Every token is spelled -/

/-- A media request is read off the segment that it is spelled with, which reads in no other way. -/
theorem eq_mediaSegment_of_media? {m : Media} (h : media? t s = some m) :
    s = Spelling.mediaSegment m ∧ t.contains m.name ∧
      (m.isMax = false → ∀ name, t.contains name → m.name ≠ "max-" ++ name) := by
  by_cases hmax : ∃ name, t.contains name ∧ s = "max-" ++ name
  · obtain ⟨name, hname, rfl⟩ := hmax
    rw [media?_max hname] at h
    cases h
    exact ⟨rfl, hname, nofun⟩
  · have hnot : ∀ name, t.contains name → s ≠ "max-" ++ name := fun name hname e => hmax ⟨name, hname, e⟩
    rw [media?_of_ne hnot] at h
    split at h
    · rename_i hs
      cases h
      exact ⟨rfl, hs, fun _ => hnot⟩
    · cases h

theorem ne_of_media?_eq_none (h : media? t s = none) :
    t.contains s = false ∧ ∀ name, t.contains name → s ≠ "max-" ++ name := by
  have hnot : ∀ name, t.contains name → s ≠ "max-" ++ name := by
    rintro name hname rfl
    rw [media?_max hname] at h
    cases h
  rw [media?_of_ne hnot] at h
  exact ⟨by simpa using h, hnot⟩

/-- A last segment is a base behind a mark, or a base that does not begin with one. -/
theorem exists_base (s : String) : ∃ important base, (important = false → base.toList.head? ≠ some '!') ∧
    s = if important then "!" ++ base else base := by
  cases hs : s.toList with
  | nil => exact ⟨false, s, by simp [hs], rfl⟩
  | cons c r =>
      by_cases hc : c = '!'
      · refine ⟨true, String.ofList r, nofun, String.toList_inj.1 ?_⟩
        simp [hs, hc]
      · exact ⟨false, s, by simpa [hs] using hc, rfl⟩

/-- Segments without colons are spelled by a media request or none, and by further segments. -/
theorem exists_modifiers (t : BreakpointTable) (modifiers : List String) : ∃ media further,
    modifiers = (media.map Spelling.mediaSegment).toList ++ further ∧
    (∀ m ∈ media, t.contains m.name ∧
      (m.isMax = false → ∀ name, t.contains name → m.name ≠ "max-" ++ name)) ∧
    (media = none → ∀ s ∈ further.head?,
      t.contains s = false ∧ ∀ name, t.contains name → s ≠ "max-" ++ name) := by
  cases modifiers with
  | nil => exact ⟨none, [], rfl, nofun, nofun⟩
  | cons s further =>
      cases hs : media? t s with
      | some m =>
          obtain ⟨rfl, hread⟩ := eq_mediaSegment_of_media? hs
          exact ⟨some m, further, rfl, by simpa using hread, nofun⟩
      | none => exact ⟨none, s :: further, rfl, nofun, fun _ => by simpa using ne_of_media?_eq_none hs⟩

theorem exists_spelling (t : BreakpointTable) (token : String) :
    ∃ w : Spelling, w.Fits t ∧ w.text = token := by
  obtain ⟨modifiers, last, hsegments⟩ : ∃ modifiers last, Text.split ':' token = modifiers ++ [last] :=
    ⟨_, _, (List.dropLast_append_getLast (by simp [Text.split, List.splitOn_ne_nil])).symm⟩
  obtain ⟨media, further, rfl, hmedia, hnone⟩ := exists_modifiers t modifiers
  obtain ⟨important, base, hmark, rfl⟩ := exists_base last
  have hcolon : ∀ s ∈ Text.split ':' token, ':' ∉ s.toList := by
    intro s hs
    obtain ⟨l, hl, rfl⟩ := List.mem_map.1 hs
    rw [String.toList_ofList]
    exact Text.not_mem_of_mem_splitOn hl
  rw [hsegments] at hcolon
  refine ⟨⟨media, further, important, base⟩,
    ⟨fun m hm => (hmedia m hm).1, fun m hm => (hmedia m hm).2, hnone, hmark, ?_, ?_, ?_⟩, ?_⟩
  · intro m hm hc
    have hm : media = some m := hm
    refine hcolon (Spelling.mediaSegment m) (by simp [hm]) ?_
    unfold Spelling.mediaSegment
    split <;> simp [hc]
  · intro s hs
    exact hcolon s (by simp [show s ∈ further from hs])
  · intro hc
    refine hcolon (if important then "!" ++ base else base) (by simp) ?_
    have hc : ':' ∈ base.toList := hc
    split <;> simp [hc]
  · have hrow : (":" : String).toList = [':'] := rfl
    rw [← String.toList_inj, Spelling.text, Spelling.modifiers, Spelling.lastSegment, ← hsegments,
      String.toList_intercalate, hrow, Text.split, List.map_map]
    simp [Function.comp_def, List.intercalate_splitOn]

/-- **Every token is spelled in one way**, so reading is known on every text. -/
theorem existsUnique_spelling (t : BreakpointTable) (token : String) :
    ∃! w : Spelling, w.Fits t ∧ w.text = token := by
  obtain ⟨w, hw, htext⟩ := exists_spelling t token
  refine ⟨w, ⟨hw, htext⟩, ?_⟩
  rintro w' ⟨hw', htext'⟩
  have hread : (parse t w'.text).1 = (parse t w.text).1 := by rw [htext', htext]
  have hsegments : w'.modifiers ++ [w'.lastSegment] = w.modifiers ++ [w.lastSegment] := by
    rw [← Spelling.split_text hw', ← Spelling.split_text hw, htext', htext]
  rw [parse_text hw', parse_text hw] at hread
  obtain ⟨media, further, important, base⟩ := w
  obtain ⟨media', further', important', base'⟩ := w'
  obtain ⟨rfl, -, rfl, rfl⟩ := Token.mk.inj hread
  -- with the same request before them and the same base behind, the further segments are the same
  simpa [Spelling.modifiers, Spelling.lastSegment] using hsegments

end Token

end UtilityCss
