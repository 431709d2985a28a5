import UtilityCss.Proofs.Math.Calls
import UtilityCss.Proofs.Text
import Mathlib.Data.List.Chain

/-!
# What spacing changes

A text is divided into calls of math functions and the characters between them (`Divided`), in one way
(`Divided.unique`). Spacing lays out the arguments of each call and keeps the rest
(`Divided.normalizeFrom_eq`): there are no blanks in spaced arguments but single spaces, none of them
at either end, and one between an operator and whatever is next to it (`isSpaced_spaceArguments`). So
it neither adds nor takes away, nor moves, a character other than blanks and `_` (`filter_normalize`).

The main statement is `normalize_changes_spacing`.
-/

namespace UtilityCss.Math
open Text Value

variable {c : Char} {s t w a r rest : List Char} {name : String} {start : Bool} {p : Char → Bool}

/-! ### Spaced texts -/

/-- Whether two characters may stand side by side: not two spaces, and at an operator only a space. -/
def Adjacent (a b : Char) : Prop :=
  ¬ (a = ' ' ∧ b = ' ') ∧ (isOperator a → b = ' ') ∧ (isOperator b → a = ' ')

/-- The layout of spaced arguments: no `_`, single spaces alone and none at either end, and nothing
but a space next to an operator. -/
structure IsSpaced (s : List Char) : Prop where
  underscore : '_' ∉ s
  blank : ∀ c ∈ s, isBlank c → c = ' '
  head : s.head? ≠ some ' '
  last : s.getLast? ≠ some ' '
  adjacent : s.IsChain Adjacent

theorem isSpaced_nil : IsSpaced [] where
  underscore := List.not_mem_nil
  blank := by simp
  head := by simp
  last := by simp
  adjacent := .nil

/-- A text of characters that stand for themselves has nothing to space. -/
theorem isSpaced_of_isPlain (h : ∀ c ∈ s, isPlain c) : IsSpaced s := by
  have hblank : ∀ c ∈ s, isBlank c = false := fun c hc => (isPlain_iff.1 (h c hc)).2.2
  have hspace : ' ' ∉ s := fun hm => absurd (hblank _ hm) (by decide)
  refine ⟨fun hm => (isPlain_iff.1 (h _ hm)).1 rfl, fun c hc hb => ?_,
    fun e => hspace (List.mem_of_head? e), fun e => hspace (List.mem_of_getLast? e), ?_⟩
  · rw [hblank c hc] at hb
    cases hb
  · refine (List.pairwise_of_forall_mem_list fun a ha b hb => ?_).isChain
    have hoperator := fun c hc => (isPlain_iff.1 (h c hc)).2.1
    refine ⟨fun e => hspace (e.1 ▸ ha), fun ho => ?_, fun ho => ?_⟩
    · rw [hoperator a ha] at ho
      cases ho
    · rw [hoperator b hb] at ho
      cases ho

theorem isSpaced_of_isOperator (h : isOperator c) : IsSpaced [c] := by
  have hblank := not_isBlank_of_isOperator h
  have hspace : c ≠ ' ' := by
    rintro rfl
    cases hblank
  refine ⟨fun hm => ?_, fun d hd hb => ?_, by simpa using hspace, by simpa using hspace,
    List.isChain_singleton c⟩
  · rw [← List.mem_singleton.1 hm] at h
    exact absurd h (by decide)
  · rw [List.mem_singleton.1 hd, hblank] at hb
    cases hb

theorem IsWord.isSpaced (h : IsWord w) : IsSpaced w := by
  cases h with
  | operator h => exact isSpaced_of_isOperator h
  | plain h _ => exact isSpaced_of_isPlain h

theorem IsWord.ne_nil (h : IsWord w) : w ≠ [] := by
  cases h with
  | operator _ => exact List.cons_ne_nil _ _
  | plain _ h => exact h

/-- Spaced texts with a space between are spaced. -/
theorem IsSpaced.append (hs : IsSpaced s) (ht : IsSpaced t) (hsne : s ≠ []) (htne : t ≠ []) :
    IsSpaced (s ++ ' ' :: t) where
  underscore := by simp [hs.underscore, ht.underscore]
  blank := by
    intro c hc hb
    rcases List.mem_append.1 hc with hc | hc
    · exact hs.blank c hc hb
    · rcases List.mem_cons.1 hc with rfl | hc
      · rfl
      · exact ht.blank c hc hb
  head := by
    rw [List.head?_append_of_ne_nil s hsne]
    exact hs.head
  last := by
    rw [List.getLast?_append_cons, ← List.singleton_append, List.getLast?_append_of_ne_nil _ htne]
    exact ht.last
  adjacent := by
    -- the space in the middle has no space next to it
    refine List.isChain_append.2 ⟨hs.adjacent, List.isChain_cons.2 ⟨fun b hb => ?_, ht.adjacent⟩,
      fun a ha b hb => ?_⟩
    · refine ⟨fun e => ht.head ?_, fun ho => absurd ho (by decide), fun _ => rfl⟩
      rw [← e.2]
      exact hb
    · obtain rfl : ' ' = b := by simpa using hb
      refine ⟨fun e => hs.last ?_, fun _ => rfl, fun ho => absurd ho (by decide)⟩
      rw [← e.1]
      exact ha

theorem isSpaced_intercalate {ws : List (List Char)} (h : ∀ w ∈ ws, IsWord w) :
    IsSpaced ([' '].intercalate ws) := by
  induction ws with
  | nil => exact isSpaced_nil
  | cons w ws ih =>
      obtain ⟨hw, hws⟩ := List.forall_mem_cons.1 h
      cases ws with
      | nil =>
          rw [List.intercalate_singleton]
          exact hw.isSpaced
      | cons v ws =>
          have hprefix : v <+: [' '].intercalate (v :: ws) := by
            simpa using prefix_intercalate (a := ' ') (List.prefix_append [v] ws)
          have hne := hprefix.ne_nil (hws v List.mem_cons_self).ne_nil
          rw [List.intercalate_cons_cons, List.append_assoc, List.singleton_append]
          exact hw.isSpaced.append (ih hws) hw.ne_nil hne

/-- Spacing lays arguments out. -/
theorem isSpaced_spaceArguments (s : List Char) : IsSpaced (spaceArguments s) :=
  isSpaced_intercalate fun _ => isWord_of_mem_argumentWords

/-! ### Calls and what is between them -/

/-- A part of a value: a call of a math function, or a character outside of calls. -/
inductive Piece where
  | call (name : String) (arguments : List Char)
  | kept (c : Char)

namespace Piece

def text : Piece → List Char
  | call name arguments => name.toList ++ '(' :: (arguments ++ [')'])
  | kept c              => [c]

/-- A piece once it has been spaced. -/
def spaced : Piece → List Char
  | call name arguments => name.toList ++ '(' :: (spaceArguments arguments ++ [')'])
  | kept c              => [c]

theorem filter_spaced (hp : ∀ c, p c → isBlank c = false ∧ c ≠ '_') (q : Piece) :
    q.spaced.filter p = q.text.filter p := by
  cases q with
  | call name arguments =>
      simp only [spaced, text, List.filter_append, List.filter_cons, filter_spaceArguments hp]
  | kept c => rfl

end Piece

/-- The pieces of a text; `start` says whether a call may begin at its head. A call reaches from a name
to the parenthesis that closes it, and one that is not closed takes the rest of the text. -/
inductive Divided : Bool → List Char → List Piece → Prop where
  | nil (start : Bool) : Divided start [] []
  | call {name : String} {arguments rest : List Char} {pieces : List Piece}
      (hname : name ∈ mathFunctions) (hclosed : Closes 0 arguments)
      (hrest : Divided false rest pieces) :
      Divided true (name.toList ++ '(' :: (arguments ++ ')' :: rest)) (.call name arguments :: pieces)
  | unclosed {name : String} {s : List Char} (hname : name ∈ mathFunctions)
      (hopen : ∀ arguments rest, Closes 0 arguments → s ≠ arguments ++ ')' :: rest) :
      Divided true (name.toList ++ '(' :: s) ((name.toList ++ '(' :: s).map .kept)
  | kept {start : Bool} {c : Char} {s : List Char} {pieces : List Piece}
      (hname : start → ∀ name ∈ mathFunctions, ¬ name.toList ++ ['('] <+: c :: s)
      (hrest : Divided (!c.isAlphanum) s pieces) : Divided start (c :: s) (.kept c :: pieces)

/-! ### The division of a text -/

theorem opening?_name (h : name ∈ mathFunctions) (r : List Char) :
    opening? (name.toList ++ '(' :: r) = some (name.toList ++ ['('], r) := by
  rw [← opening?_of_name name h, List.append_assoc, List.singleton_append]

/-- No name stands at the head of a text that opens no call. -/
theorem opening?_eq_none_iff :
    opening? s = none ↔ ∀ name ∈ mathFunctions, ¬ name.toList ++ ['('] <+: s := by
  constructor
  · rintro h name hname ⟨r, rfl⟩
    rw [opening?_of_name name hname] at h
    cases h
  · intro h
    by_contra hne
    obtain ⟨⟨head, r⟩, ho⟩ := Option.ne_none_iff_exists'.1 hne
    obtain ⟨name, hname, rfl⟩ := exists_name_of_opening? ho
    exact h name hname ⟨r, (append_of_opening? ho).symm⟩

/-- No parenthesis closes a text that nowhere goes on behind balanced arguments. -/
theorem closing?_eq_none_iff :
    closing? 0 s = none ↔ ∀ arguments rest, Closes 0 arguments → s ≠ arguments ++ ')' :: rest := by
  constructor
  · rintro h arguments rest hclosed rfl
    rw [hclosed.closing?] at h
    cases h
  · intro h
    by_contra hne
    obtain ⟨⟨arguments, rest⟩, hc⟩ := Option.ne_none_iff_exists'.1 hne
    exact h arguments rest (closes_of_closing? hc) (append_of_closing? hc)

theorem exists_divided (start : Bool) (s : List Char) : ∃ pieces, Divided start s pieces := by
  induction start, s using normalizeFrom.induct with
  | case1 start => exact ⟨[], .nil start⟩
  | case2 start c s head r ho a rest hc ih =>
      cases start with
      | false => cases ho
      | true =>
          obtain ⟨name, hname, rfl⟩ := exists_name_of_opening? ho
          obtain ⟨pieces, hrest⟩ := ih
          have htext : c :: s = name.toList ++ '(' :: (a ++ ')' :: rest) := by
            rw [append_of_opening? ho, append_of_closing? hc, List.append_assoc,
              List.singleton_append]
          rw [htext]
          exact ⟨_, .call hname (closes_of_closing? hc) hrest⟩
  | case3 start c s head r ho hc =>
      cases start with
      | false => cases ho
      | true =>
          obtain ⟨name, hname, rfl⟩ := exists_name_of_opening? ho
          rw [append_of_opening? ho, List.append_assoc, List.singleton_append]
          exact ⟨_, .unclosed hname (closing?_eq_none_iff.1 hc)⟩
  | case4 start c s ho ih =>
      obtain ⟨pieces, hrest⟩ := ih
      refine ⟨_, .kept (fun hstart => ?_) hrest⟩
      rw [dif_pos hstart] at ho
      exact opening?_eq_none_iff.1 ho

theorem flatMap_map_kept (f : Piece → List Char) (hf : ∀ c, f (.kept c) = [c]) (s : List Char) :
    (s.map Piece.kept).flatMap f = s := by
  rw [List.flatMap_map, List.flatMap_congr fun c _ => hf c, List.flatMap_singleton']

namespace Divided

variable {pieces others : List Piece}

/-- The pieces of a text are the text. -/
theorem text_eq (h : Divided start s pieces) : pieces.flatMap Piece.text = s := by
  induction h with
  | nil start => rfl
  | call hname hclosed hrest ih => simp [Piece.text, ih]
  | unclosed hname hopen => exact flatMap_map_kept _ (fun _ => rfl) _
  | kept hname hrest ih => simp [Piece.text, ih]

/-- What is spaced of a text is the calls among its pieces. -/
theorem normalizeFrom_eq (h : Divided start s pieces) :
    normalizeFrom start s = pieces.flatMap Piece.spaced := by
  induction h with
  | nil start => exact normalizeFrom_nil start
  | call hname hclosed hrest ih =>
      rw [normalizeFrom_of_call (opening?_name hname _) (hclosed.closing? _), ih]
      simp [Piece.spaced]
  | unclosed hname hopen =>
      rw [normalizeFrom_of_unclosed (opening?_name hname _) (closing?_eq_none_iff.2 hopen),
        flatMap_map_kept _ fun _ => rfl]
  | @kept start c s pieces hname hrest ih =>
      cases start with
      | false => rw [normalizeFrom_false, ih]; rfl
      | true => rw [normalizeFrom_of_none (opening?_eq_none_iff.2 (hname rfl)), ih]; rfl

theorem of_mem_call {arguments : List Char} (h : Divided start s pieces)
    (hm : .call name arguments ∈ pieces) : name ∈ mathFunctions ∧ Closes 0 arguments := by
  induction h with
  | nil start => cases hm
  | call hname hclosed hrest ih =>
      rcases List.mem_cons.1 hm with e | hm
      · cases e
        exact ⟨hname, hclosed⟩
      · exact ih hm
  | unclosed hname hopen =>
      obtain ⟨c, -, e⟩ := List.mem_map.1 hm
      cases e
  | kept hname hrest ih =>
      rcases List.mem_cons.1 hm with e | hm
      · cases e
      · exact ih hm

end Divided

theorem name_unique {name' : String} (h : name ∈ mathFunctions) (h' : name' ∈ mathFunctions)
    (e : name.toList ++ '(' :: r = name'.toList ++ '(' :: s) : name = name' ∧ r = s := by
  have hnot : ∀ name ∈ mathFunctions, '(' ∉ name.toList := by decide
  obtain ⟨hname, hr⟩ := (append_cons_inj (hnot name h) (hnot name' h')).1 e
  exact ⟨String.toList_inj.1 hname, hr⟩

theorem Closes.unique {b : List Char} (ha : Closes 0 a) (hb : Closes 0 b)
    (e : a ++ ')' :: r = b ++ ')' :: s) : a = b ∧ r = s := by
  have h := ha.closing? r
  rw [e, hb.closing?] at h
  cases h
  exact ⟨rfl, rfl⟩

namespace Divided

variable {pieces others : List Piece}

/-- A text is divided in one way. -/
theorem unique (h : Divided start s pieces) (h' : Divided start s others) : pieces = others := by
  induction h generalizing others with
  | nil start =>
      generalize hs : [] = s at h'
      cases h' with
      | nil => rfl
      | call _ _ _ => simp at hs
      | unclosed _ _ => simp at hs
      | kept _ _ => cases hs
  | @call name a rest pieces hname hclosed hrest ih =>
      generalize hs : name.toList ++ '(' :: (a ++ ')' :: rest) = s at h'
      cases h' with
      | nil => simp at hs
      | call hname' hclosed' hrest' =>
          obtain ⟨rfl, hr⟩ := name_unique hname hname' hs
          obtain ⟨rfl, rfl⟩ := hclosed.unique hclosed' hr
          rw [ih hrest']
      | unclosed hname' hopen' =>
          obtain ⟨rfl, hr⟩ := name_unique hname hname' hs
          exact absurd hr.symm (hopen' a rest hclosed)
      | kept hno' _ => exact absurd ⟨_, by simpa using hs⟩ (hno' rfl name hname)
  | @unclosed name r hname hopen =>
      generalize hs : name.toList ++ '(' :: r = s at h'
      cases h' with
      | nil => simp at hs
      | call hname' hclosed' hrest' =>
          obtain ⟨rfl, hr⟩ := name_unique hname hname' hs
          exact absurd hr (hopen _ _ hclosed')
      | unclosed _ _ => rfl
      | kept hno' _ => exact absurd ⟨_, by simpa using hs⟩ (hno' rfl name hname)
  | @kept start c s pieces hno hrest ih =>
      generalize hs : c :: s = t at h'
      cases h' with
      | nil => cases hs
      | call hname' _ _ => exact absurd ⟨_, by simpa using hs.symm⟩ (hno rfl _ hname')
      | unclosed hname' _ => exact absurd ⟨_, by simpa using hs.symm⟩ (hno rfl _ hname')
      | kept _ hrest' =>
          obtain ⟨rfl, rfl⟩ := List.cons.inj hs
          rw [ih hrest']

end Divided

/-! ### What is kept -/

/-- Spacing keeps the characters that are neither blank nor `_`, in order. -/
theorem filter_normalizeFrom (hp : ∀ c, p c → isBlank c = false ∧ c ≠ '_') (start : Bool)
    (s : List Char) : (normalizeFrom start s).filter p = s.filter p := by
  obtain ⟨pieces, h⟩ := exists_divided start s
  calc (normalizeFrom start s).filter p
      = pieces.flatMap fun q => q.spaced.filter p := by rw [h.normalizeFrom_eq, List.filter_flatMap]
    _ = pieces.flatMap fun q => q.text.filter p := by
        rw [List.flatMap_congr fun q _ => q.filter_spaced hp]
    _ = s.filter p := by rw [← List.filter_flatMap, h.text_eq]

theorem filter_normalize (hp : ∀ c, p c → isBlank c = false ∧ c ≠ '_') (v : String) :
    (normalize v).toList.filter p = v.toList.filter p := by
  rw [normalize, String.toList_ofList, filter_normalizeFrom hp]

theorem filter_normalizeLeading (hp : ∀ c, p c → isBlank c = false ∧ c ≠ '_') (v : String) :
    (normalizeLeading v).toList.filter p = v.toList.filter p := by
  rcases normalizeLeading_cases v with h | ⟨head, r, a, rest, ho, hc, h⟩
  · rw [h]
  · rw [h, String.toList_ofList, append_of_opening? ho, append_of_closing? hc]
    simp only [List.filter_append, List.filter_cons, filter_spaceArguments hp, List.append_assoc]

/-- Whether a character is no spacing: neither blank nor `_`. -/
def isInk (c : Char) : Bool := !isBlank c && c ≠ '_'

theorem of_isInk (h : isInk c) : isBlank c = false ∧ c ≠ '_' := by
  simpa [isInk] using h

/-- **Spacing changes nothing else, and nothing outside of calls.**  Of every value, spacing all calls or
the call at its head keeps all the characters but blanks and `_`. And spacing all calls lays out the
arguments of each call in the value, from the name of a math function to its closing parenthesis, and
keeps every character outside of them. -/
theorem normalize_changes_spacing (v : String) :
    (normalize v).toList.filter isInk = v.toList.filter isInk ∧
    (normalizeLeading v).toList.filter isInk = v.toList.filter isInk ∧
    ∃ pieces, Divided true v.toList pieces ∧ pieces.flatMap Piece.text = v.toList ∧
      pieces.flatMap Piece.spaced = (normalize v).toList ∧
      ∀ name arguments, .call name arguments ∈ pieces → name ∈ mathFunctions ∧
        Closes 0 arguments ∧ IsSpaced (spaceArguments arguments) := by
  obtain ⟨pieces, h⟩ := exists_divided true v.toList
  refine ⟨filter_normalize (fun _ => of_isInk) v, filter_normalizeLeading (fun _ => of_isInk) v,
    pieces, h, h.text_eq, ?_, fun name arguments hm => ?_⟩
  · rw [normalize, String.toList_ofList, h.normalizeFrom_eq]
  · obtain ⟨hname, hclosed⟩ := h.of_mem_call hm
    exact ⟨hname, hclosed, isSpaced_spaceArguments arguments⟩

/-- A call within a call, and one that is not closed. -/
theorem normalize_changes_spacing_nested :
    normalize "é_calc(1px_-min(2px,3px))*max(6+" = "é_calc(1px - min(2px,3px))*max(6+" ∧
      Closes 0 "1px_-min(2px,3px)".toList ∧ IsSpaced (spaceArguments "1px_-min(2px,3px)".toList) := by
  have hclosing : closing? 0 "1px_-min(2px,3px))*max(6+".toList =
      some ("1px_-min(2px,3px)".toList, "*max(6+".toList) := by decide
  have hlast : Divided true "max(6+".toList ("max(6+".toList.map .kept) :=
    @Divided.unclosed "max" "6+".toList (by decide) (closing?_eq_none_iff.1 (by decide))
  have hcalc : Divided true "calc(1px_-min(2px,3px))*max(6+".toList
      (.call "calc" "1px_-min(2px,3px)".toList :: .kept '*' :: "max(6+".toList.map .kept) :=
    @Divided.call "calc" _ _ _ (by decide) (closes_of_closing? hclosing) (.kept nofun hlast)
  obtain ⟨-, -, pieces, h, -, hspaced, hcall⟩ :=
    normalize_changes_spacing "é_calc(1px_-min(2px,3px))*max(6+"
  have htext : "é_calc(1px_-min(2px,3px))*max(6+".toList =
      'é' :: '_' :: "calc(1px_-min(2px,3px))*max(6+".toList := by decide
  rw [htext] at h
  obtain rfl := h.unique (.kept (by decide) (.kept (by decide) hcalc))
  obtain ⟨-, hclosed, hlayout⟩ := hcall "calc" "1px_-min(2px,3px)".toList (by simp)
  exact ⟨String.toList_inj.1 (hspaced.symm.trans (by decide)), hclosed, hlayout⟩

end UtilityCss.Math
