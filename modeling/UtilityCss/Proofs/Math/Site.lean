import UtilityCss.Proofs.Math.Balance

/-!
# Where calls stand

A call stands at the head of a value or behind a character that is no ASCII letter or digit, with
balanced arguments up to its closing parenthesis (`Site.IsIn`), and it has the same place in the spaced
value: what stands before it, in it and behind it differs in blanks and `_` alone (`Site.IsSame`). In a
value with balanced parentheses the arguments of every call are laid out in order, within others too
(`Divided.isRegularIn_or_follows`), but for a call that stands directly behind one that is spaced: its
arguments are read like a value of their own (`Site.Follows.normalizeFrom_eq`).

The main statement is `isRegularIn_normalize_iff`.
-/

namespace UtilityCss.Math
open Text Value

variable {c x : Char} {s t u v w a b r rest : List Char} {d : Nat} {name : String} {start : Bool}
  {pieces : List Piece}

/-! ### The layout of parts -/

/-- The layout of a part of spaced arguments: no `_`, single spaces alone, and nothing but a space next
to an operator. -/
structure IsRegular (s : List Char) : Prop where
  underscore : '_' ∉ s
  blank : ∀ c ∈ s, isBlank c → c = ' '
  adjacent : s.IsChain Adjacent

instance : DecidableRel Adjacent := fun _ _ => inferInstanceAs (Decidable (_ ∧ _ ∧ _))

instance (s : List Char) : Decidable (IsRegular s) :=
  decidable_of_iff ('_' ∉ s ∧ s.all (fun c => isBlank c → c = ' ') ∧ s.IsChain Adjacent) <| by
    simp only [List.all_eq_true, decide_eq_true_eq]
    exact ⟨fun h => ⟨h.1, h.2.1, h.2.2⟩, fun h => ⟨h.underscore, h.blank, h.adjacent⟩⟩

theorem IsSpaced.isRegular (h : IsSpaced s) : IsRegular s := ⟨h.underscore, h.blank, h.adjacent⟩

theorem IsRegular.of_infix (h : IsRegular s) (ht : t <:+: s) : IsRegular t :=
  ⟨fun hm => h.underscore (ht.subset hm), fun c hc => h.blank c (ht.subset hc), h.adjacent.infix ht⟩

/-- Texts that agree in what is kept of them end at the same place in front of a character that is kept. -/
theorem append_cons_inj_of_filter {p : Char → Bool} (hx : p x) (hf : s.filter p = t.filter p)
    (h : s ++ x :: u = t ++ x :: v) : s = t ∧ u = v := by
  induction s generalizing t with
  | nil =>
      cases t with
      | nil => exact ⟨rfl, (List.cons.inj h).2⟩
      | cons y t =>
          obtain ⟨rfl, -⟩ := List.cons.inj h
          simp [hx] at hf
  | cons y s ih =>
      cases t with
      | nil =>
          obtain ⟨rfl, -⟩ := List.cons.inj h
          simp [hx] at hf
      | cons z t =>
          obtain ⟨rfl, hrest⟩ := List.cons.inj h
          have hf : s.filter p = t.filter p := by
            simp only [List.filter_cons] at hf
            split at hf
            · exact (List.cons.inj hf).2
            · exact hf
          obtain ⟨rfl, hlater⟩ := ih hf hrest
          exact ⟨rfl, hlater⟩

theorem isInk_of_isPlain (h : isPlain c) : isInk c := by
  obtain ⟨hu, -, hb⟩ := isPlain_iff.1 h
  simp [isInk, hu, hb]

/-- A character that becomes a blank is no ink. -/
theorem not_isInk_of_pad (hb : isBlank x) (h : pad c = [x]) : isInk c = false := by
  by_contra hink
  obtain ⟨hc, hu⟩ := of_isInk (by simpa using hink)
  rw [pad_eq, if_neg hu] at h
  split at h
  · cases h
  · cases h
    rw [hc] at hb
    cases hb

/-- A word that has been read stands before the words behind it. -/
theorem exists_intercalate_append (v : List Char) {ws : List (List Char)} (hws : ws ≠ []) :
    ∃ m, [' '].intercalate (wordsFrom v [] ++ ws) = m ++ [' '].intercalate ws ∧
      m.filter isInk = v.reverse.filter isInk := by
  rw [wordsFrom_nil]
  split
  · rename_i hv
    exact ⟨[], rfl, by rw [hv]; rfl⟩
  · refine ⟨v.reverse ++ [' '], ?_, ?_⟩
    · rw [List.singleton_append, List.intercalate_cons_of_ne_nil hws]
    · have hspace : [' '].filter isInk = [] := by decide
      rw [List.filter_append, hspace, List.append_nil]

theorem exists_intercalate_wordsFrom (v t : List Char) :
    ∃ u, [' '].intercalate (wordsFrom v t) = v.reverse ++ u := by
  induction t generalizing v with
  | nil =>
      rw [wordsFrom_nil]
      split
      · rename_i hv
        exact ⟨[], by rw [hv]; rfl⟩
      · exact ⟨[], by simp⟩
  | cons c t ih =>
      by_cases hc : isBlank c
      · rw [wordsFrom_blank hc, wordsFrom_nil]
        split
        · rename_i hv
          exact ⟨_, by rw [hv]; rfl⟩
        · by_cases ht : wordsFrom [] t = []
          · exact ⟨[], by simp [ht]⟩
          · rw [List.singleton_append, List.intercalate_cons_of_ne_nil ht, List.append_assoc]
            exact ⟨_, rfl⟩
      · rw [wordsFrom_cons (by simpa using hc)]
        obtain ⟨u, hu⟩ := ih (c :: v)
        exact ⟨c :: u, by simp [hu]⟩

theorem wordsFrom_append_of_isPlain (hw : ∀ c ∈ w, isPlain c) (v t : List Char) :
    wordsFrom v ((w ++ t).flatMap pad) = wordsFrom (w.reverse ++ v) (t.flatMap pad) := by
  induction w generalizing v with
  | nil => rfl
  | cons c w ih =>
      have hc := hw c List.mem_cons_self
      rw [List.cons_append, List.flatMap_cons, pad_of_isPlain hc, List.singleton_append,
        wordsFrom_cons (isPlain_iff.1 hc).2.2, ih fun d hd => hw d (List.mem_cons_of_mem c hd)]
      simp

/-- Characters that stand for themselves stay side by side, with the same ink before them; `v` is the
part of a word that has been read. -/
theorem exists_append_of_isPlain (hw : ∀ c ∈ w, isPlain c) (hne : w ≠ []) (v s t : List Char) :
    ∃ m u, [' '].intercalate (wordsFrom v ((s ++ (w ++ t)).flatMap pad)) = m ++ (w ++ u) ∧
      m.filter isInk = (v.reverse ++ s).filter isInk := by
  induction s generalizing v with
  | nil =>
      rw [List.nil_append, wordsFrom_append_of_isPlain hw]
      obtain ⟨u, hu⟩ := exists_intercalate_wordsFrom (w.reverse ++ v) (t.flatMap pad)
      exact ⟨v.reverse, u, by simp [hu], by simp⟩
  | cons c s ih =>
      obtain ⟨m, u, htext, hink⟩ := ih []
      have hwords : wordsFrom [] ((s ++ (w ++ t)).flatMap pad) ≠ [] := by
        intro h
        rw [h] at htext
        simp [hne] at htext
      rw [List.cons_append, List.flatMap_cons]
      -- a character ends the word so far, is a word of its own, or goes on with that word
      rcases pad_cases c with ⟨x, hx, e⟩ | ho | hp
      · obtain ⟨l, hl, hlink⟩ := exists_intercalate_append v hwords
        rw [e, List.singleton_append, wordsFrom_blank hx, hl, htext]
        refine ⟨l ++ m, u, by simp, ?_⟩
        rw [List.filter_append, hlink, hink]
        simp [not_isInk_of_pad hx e]
      · obtain ⟨l, hl, hlink⟩ := exists_intercalate_append v
          (List.cons_ne_nil [c] (wordsFrom [] ((s ++ (w ++ t)).flatMap pad)))
        have hc : isInk c := by
          simp only [isOperator, Bool.or_eq_true, decide_eq_true_eq] at ho
          rcases ho with ((rfl | rfl) | rfl) | rfl <;> decide
        rw [pad_of_isOperator ho, wordsFrom_operator ho, hl, List.intercalate_cons_of_ne_nil hwords,
          htext]
        refine ⟨l ++ c :: ' ' :: m, u, by simp, ?_⟩
        have hspace : isInk ' ' = false := by decide
        simp [hlink, hink, hc, hspace]
      · obtain ⟨m, u, htext, hink⟩ := ih (c :: v)
        rw [pad_of_isPlain hp, List.singleton_append, wordsFrom_cons (isPlain_iff.1 hp).2.2, htext]
        exact ⟨m, u, rfl, by simp [hink]⟩

theorem exists_spaceArguments_append (hw : ∀ c ∈ w, isPlain c) (hne : w ≠ []) (s t : List Char) :
    ∃ m u, spaceArguments (s ++ (w ++ t)) = m ++ (w ++ u) ∧ m.filter isInk = s.filter isInk ∧
      u.filter isInk = t.filter isInk := by
  obtain ⟨m, u, htext, hink⟩ := exists_append_of_isPlain hw hne [] s t
  have htext : spaceArguments (s ++ (w ++ t)) = m ++ (w ++ u) := htext
  have hink : m.filter isInk = s.filter isInk := by simpa using hink
  have hall := filter_spaceArguments (fun _ => of_isInk) (s ++ (w ++ t))
  rw [htext] at hall
  simp only [List.filter_append, hink, List.append_cancel_left_eq] at hall
  exact ⟨m, u, htext, hink, hall⟩

/-! ### Sites -/

/-- A call of a math function in a text, with what stands before its name and behind its closing
parenthesis. -/
structure Site where
  before    : List Char
  name      : String
  arguments : List Char
  after     : List Char

namespace Site

variable {k k' k'' : Site}

def text (k : Site) : List Char :=
  k.before ++ (k.name.toList ++ '(' :: (k.arguments ++ ')' :: k.after))

/-- A call stands in a text: no ASCII letter or digit is before its name, and the parenthesis behind its
arguments is the one that closes it. -/
structure IsIn (k : Site) (s : List Char) : Prop where
  text_eq  : k.text = s
  name     : k.name ∈ mathFunctions
  begins   : ∀ c ∈ k.before.getLast?, c.isAlphanum = false
  balanced : IsBalanced k.arguments

instance (k : Site) (s : List Char) : Decidable (k.IsIn s) :=
  decidable_of_iff (k.text = s ∧ k.name ∈ mathFunctions ∧ k.before.getLast?.all (!·.isAlphanum) ∧
    IsBalanced k.arguments) <| by
    simp only [Option.all_eq_true, Bool.not_eq_true']
    exact ⟨fun h => ⟨h.1, h.2.1, h.2.2.1, h.2.2.2⟩, fun h => ⟨h.text_eq, h.name, h.begins, h.balanced⟩⟩

/-- A call that stands behind a part of a text stands in what follows that part. -/
theorem IsIn.of_append {p : List Char} (h : k.IsIn (p ++ s)) (hbefore : k.before = p ++ b) :
    ({ k with before := b } : Site).IsIn s where
  text_eq := by
    have htext := h.text_eq
    rw [text, hbefore, List.append_assoc] at htext
    exact List.append_cancel_left htext
  name := h.name
  begins c hc := h.begins c (hbefore ▸ List.mem_getLast?_append_of_mem_getLast? hc)
  balanced := h.balanced

/-- The place of a call in two layouts of a text, which differ in blanks and `_` alone. -/
structure IsSame (k k' : Site) : Prop where
  before    : k'.before.filter isInk = k.before.filter isInk
  name      : k'.name = k.name
  arguments : k'.arguments.filter isInk = k.arguments.filter isInk
  after     : k'.after.filter isInk = k.after.filter isInk

/-- A call has arguments in order at its place in a layout of the text that it stands in. -/
def IsRegularIn (k : Site) (s : List Char) : Prop :=
  ∃ k' : Site, k'.text = s ∧ k.IsSame k' ∧ IsRegular k'.arguments

/-- A call stands directly behind one that is spaced. -/
def Follows (k : Site) (start : Bool) : Prop :=
  ∃ pieces name arguments, Divided start k.before (pieces ++ [.call name arguments])

theorem follows_of_call (name : String) (a : List Char) (hname : name ∈ mathFunctions) (ha : Closes 0 a)
    (h : k.before = name.toList ++ '(' :: (a ++ [')'])) : k.Follows true := by
  refine ⟨[], name, a, ?_⟩
  rw [h]
  exact .call hname ha (.nil false)

theorem isPlain_name (h : name ∈ mathFunctions) : ∀ c ∈ name.toList ++ ['('], isPlain c := by
  have hall : ∀ name ∈ mathFunctions, (name.toList ++ ['(']).all isPlain := by decide
  exact List.all_eq_true.1 (hall name h)

theorem isAlphanum_name (h : name ∈ mathFunctions) : ∀ c ∈ name.toList, c.isAlphanum := by
  have hall : ∀ name ∈ mathFunctions, name.toList.all Char.isAlphanum := by decide
  exact List.all_eq_true.1 (hall name h)

theorem text_eq (k : Site) :
    k.text = k.before ++ (k.name.toList ++ ['('] ++ (k.arguments ++ ')' :: k.after)) := by
  simp [text]

/-- The ink of a layout tells where the arguments of a call are. -/
theorem arguments_unique (hname : k.name ∈ mathFunctions) (h : k.IsSame k') (h' : k.IsSame k'')
    (e : k'.text = k''.text) : k'.arguments = k''.arguments := by
  obtain ⟨c, w, hw⟩ := List.exists_cons_of_ne_nil (List.concat_ne_nil '(' k.name.toList)
  have hc : isInk c := isInk_of_isPlain (isPlain_name hname c (by simp [hw]))
  rw [text_eq, text_eq, h.name, h'.name, hw] at e
  obtain ⟨-, e⟩ := append_cons_inj_of_filter hc (h.before.trans h'.before.symm) e
  exact (append_cons_inj_of_filter (by decide) (h.arguments.trans h'.arguments.symm)
    (List.append_cancel_left e)).1

/-- A call within a balanced text is one of a part of that text. -/
theorem exists_of_balanced (hname : k.name ∈ mathFunctions) (hk : IsBalanced k.arguments)
    (ha : Closes d a) (h : k.name.toList ++ '(' :: (k.arguments ++ ')' :: k.after) = a ++ ')' :: rest) :
    ∃ r, a = k.name.toList ++ '(' :: (k.arguments ++ ')' :: r) ∧ k.after = r ++ ')' :: rest := by
  obtain ⟨s, rfl⟩ : k.name.toList ++ ['('] <+: a := by
    by_contra hnot
    refine not_prefix_append_closing hname hnot rest ⟨k.arguments ++ ')' :: k.after, ?_⟩
    rw [← h]
    simp
  rw [List.append_assoc, List.singleton_append] at ha
  obtain ⟨b, r, -, hb, -, rfl⟩ := ha.exists_closing
  have hclosed : k.arguments ++ ')' :: k.after = b ++ ')' :: (r ++ ')' :: rest) := by simpa using h
  obtain ⟨rfl, hafter⟩ := (isBalanced_iff_closes.1 hk).unique hb hclosed
  exact ⟨r, by simp, hafter⟩

/-- Where a call stands in a text that begins with one: at its head, within it or behind it. -/
theorem before_cases (hk : k.IsIn (name.toList ++ '(' :: (a ++ ')' :: rest)))
    (hname : name ∈ mathFunctions) (ha : Closes 0 a) :
    (k.before = [] ∧ k.name = name ∧ k.arguments = a ∧ k.after = rest) ∨
    (∃ b r, k.before = name.toList ++ '(' :: b ∧ k.after = r ++ ')' :: rest ∧
      a = b ++ (k.name.toList ++ '(' :: (k.arguments ++ ')' :: r))) ∨
    ∃ b, k.before = name.toList ++ '(' :: (a ++ ')' :: b) ∧ ({ k with before := b } : Site).IsIn rest := by
  have htext : k.before ++ (k.name.toList ++ '(' :: (k.arguments ++ ')' :: k.after)) =
      name.toList ++ ['('] ++ (a ++ ')' :: rest) := by
    rw [← text, hk.text_eq]
    simp
  by_cases hbefore : k.before = []
  · rw [hbefore, List.nil_append, List.append_assoc, List.singleton_append] at htext
    obtain ⟨hsame, htext⟩ := name_unique hk.name hname htext
    obtain ⟨harguments, hafter⟩ := (isBalanced_iff_closes.1 hk.balanced).unique ha htext
    exact .inl ⟨hbefore, hsame, harguments, hafter⟩
  -- the name does not begin within the first one, which is made of letters
  obtain ⟨b, hb⟩ : name.toList ++ ['('] <+: k.before := by
    rcases List.prefix_or_prefix_of_prefix ⟨_, htext⟩ (List.prefix_append _ (a ++ ')' :: rest)) with hp | hp
    · rcases List.prefix_concat_iff.1 hp with hp | hp
      · exact ⟨[], by rw [hp, List.append_nil]⟩
      · have hlast := List.getLast?_eq_some_getLast hbefore
        have hnot := hk.begins _ hlast
        rw [isAlphanum_name hname _ (hp.subset (List.getLast_mem hbefore))] at hnot
        cases hnot
    · exact hp
  rw [← hb, List.append_assoc] at htext
  have htext := List.append_cancel_left htext
  rcases List.append_eq_append_iff.1 htext with ⟨m, rfl, hm⟩ | ⟨m, rfl, hm⟩
  · obtain ⟨e, he⟩ := ha.of_suffix (List.suffix_append b m)
    obtain ⟨r, rfl, hafter⟩ := exists_of_balanced hk.name hk.balanced he hm
    exact .inr (.inl ⟨b, r, by simp [← hb], hafter, rfl⟩)
  · cases m with
    | nil =>
        obtain ⟨r, hnil, -⟩ := exists_of_balanced (a := []) hk.name hk.balanced .nil hm.symm
        simp at hnil
    | cons y m =>
        obtain ⟨rfl, hrest⟩ := List.cons.inj hm
        have hbehind : k.before = (name.toList ++ '(' :: (a ++ [')'])) ++ m := by simp [← hb]
        exact .inr (.inr ⟨m, by simpa using hbehind, IsIn.of_append (by simpa using hk) hbehind⟩)

/-- What stands before a call is laid out, too. -/
theorem IsRegularIn.prepend {p q : List Char} (h : ({ k with before := b } : Site).IsRegularIn t)
    (hbefore : k.before = p ++ b) (hp : q.filter isInk = p.filter isInk) : k.IsRegularIn (q ++ t) := by
  obtain ⟨k', rfl, hsame, hregular⟩ := h
  refine ⟨{ k' with before := q ++ k'.before }, by simp [text], ⟨?_, hsame.name, hsame.arguments,
    hsame.after⟩, hregular⟩
  rw [hbefore, List.filter_append, List.filter_append, hp, hsame.before]

/-- A call within the arguments of another is laid out with them. -/
theorem isRegularIn_of_arguments (hk : k.name ∈ mathFunctions) (hbefore : k.before = w ++ b)
    (ha : a = b ++ (k.name.toList ++ '(' :: (k.arguments ++ ')' :: r))) (hafter : k.after = r ++ u)
    (hu : v.filter isInk = u.filter isInk) : k.IsRegularIn (w ++ (spaceArguments a ++ v)) := by
  obtain ⟨m, z, hspaced, hm, hz⟩ := exists_spaceArguments_append (isPlain_name hk)
    (List.concat_ne_nil _ _) b (k.arguments ++ ')' :: r)
  have htext : a = b ++ (k.name.toList ++ ['('] ++ (k.arguments ++ ')' :: r)) := by simp [ha]
  rw [← htext] at hspaced
  -- the closing parenthesis is found in what is laid out by the ink before it
  rw [List.filter_append] at hz
  obtain ⟨x, y, rfl, hx, hy⟩ := List.filter_eq_append_iff.1 hz
  obtain ⟨x', y', rfl, hx', -, hy'⟩ := List.filter_eq_cons_iff.1 hy
  refine ⟨⟨w ++ m, k.name, x ++ x', y' ++ v⟩, ?_, ⟨?_, rfl, ?_, ?_⟩, ?_⟩
  · rw [hspaced, text]
    simp
  · rw [hbefore, List.filter_append, List.filter_append, hm]
  · rw [List.filter_append, hx, List.filter_eq_nil_iff.2 hx', List.append_nil]
  · rw [hafter, List.filter_append, List.filter_append, hy', hu]
  · refine (isSpaced_spaceArguments a).isRegular.of_infix ⟨m ++ (k.name.toList ++ ['(']), ')' :: y', ?_⟩
    rw [hspaced]
    simp

end Site

namespace Divided

variable {k : Site}

/-- **Every call is reached**: in a text that closes what it opens a call has its arguments in order once
the text is spaced, unless it stands directly behind a call that is spaced. -/
theorem isRegularIn_or_follows (h : Divided start s pieces) (hs : Closes d s) (hk : k.IsIn s)
    (hstart : k.before = [] → start) :
    k.IsRegularIn (pieces.flatMap Piece.spaced) ∨ k.Follows start := by
  induction h generalizing d k with
  | nil start => simpa [Site.text] using hk.text_eq
  | @call name a rest pieces hname hclosed hrest ih =>
      have hlater : (pieces.flatMap Piece.spaced).filter isInk = rest.filter isInk := by
        rw [← hrest.normalizeFrom_eq, filter_normalizeFrom fun _ => of_isInk]
      have hspaced : (Piece.call name a :: pieces).flatMap Piece.spaced =
          name.toList ++ '(' :: (spaceArguments a ++ ')' :: pieces.flatMap Piece.spaced) := by
        simp [Piece.spaced]
      rw [hspaced]
      rcases Site.before_cases hk hname hclosed with ⟨hbefore, rfl, rfl, rfl⟩ | ⟨b, r, hbefore, hafter, ha⟩ |
        ⟨b, hbefore, hb⟩
      · refine .inl ⟨⟨[], k.name, spaceArguments k.arguments, pieces.flatMap Piece.spaced⟩, rfl,
          ⟨by rw [hbefore], rfl, ?_, hlater⟩, (isSpaced_spaceArguments k.arguments).isRegular⟩
        exact filter_spaceArguments (fun _ => of_isInk) k.arguments
      · have hu : (')' :: pieces.flatMap Piece.spaced).filter isInk = (')' :: rest).filter isInk := by
          rw [List.filter_cons, List.filter_cons, hlater]
        have hwithin := Site.isRegularIn_of_arguments (w := name.toList ++ ['(']) hk.name
          (by simpa using hbefore) ha hafter hu
        exact .inl (by simpa using hwithin)
      · obtain ⟨e, he⟩ := hs.of_suffix (t := rest) ⟨name.toList ++ '(' :: (a ++ [')']), by simp⟩
        by_cases hnil : b = []
        · exact .inr (Site.follows_of_call name a hname hclosed (by rw [hbefore, hnil]))
        · rcases ih he hb (fun hb => absurd hb hnil) with hregular | ⟨ps, n, m, hps⟩
          · have hfirst := hregular.prepend (p := name.toList ++ '(' :: (a ++ [')']))
              (q := name.toList ++ '(' :: (spaceArguments a ++ [')'])) (by simpa using hbefore)
              (Piece.filter_spaced (fun _ => of_isInk) (.call name a))
            exact .inl (by simpa using hfirst)
          · exact .inr ⟨.call name a :: ps, n, m, hbefore ▸ .call hname hclosed hps⟩
  | @unclosed name r hname hopen =>
      obtain ⟨a, r, -, ha, -, rfl⟩ := hs.exists_closing
      exact absurd rfl (hopen a r ha)
  | @kept start c s pieces hname hrest ih =>
      obtain ⟨e, he⟩ := hs.of_suffix (List.suffix_cons c s)
      have htext := hk.text_eq
      rw [Site.text] at htext
      cases hbefore : k.before with
      | nil =>
          refine absurd ?_ (hname (hstart hbefore) k.name hk.name)
          rw [← htext, hbefore]
          exact ⟨k.arguments ++ ')' :: k.after, by simp⟩
      | cons c' b =>
          obtain rfl : c' = c := by
            rw [hbefore] at htext
            exact (List.cons.inj htext).1
          have hb := hk.of_append (p := [c']) hbefore
          have hfirst : b = [] → !c'.isAlphanum := by
            rintro rfl
            simpa using hk.begins c' (by simp [hbefore])
          rcases ih he hb hfirst with hregular | ⟨ps, n, m, hps⟩
          · exact .inl (hregular.prepend (p := [c']) (q := [c']) hbefore rfl)
          · refine .inr ⟨.kept c' :: ps, n, m, ?_⟩
            rw [hbefore]
            refine .kept (fun h n hn hp => hname h n hn (hp.trans ?_)) hps
            rw [← htext, hbefore]
            exact List.prefix_append (c' :: b) _

end Divided

/-! ### Calls behind calls -/

namespace Site

variable {k : Site}

/-- Directly behind a call that is spaced, the arguments of a call are read like a value of their own. -/
theorem Follows.normalizeFrom_eq (h : k.Follows start) (hname : k.name ∈ mathFunctions)
    (hk : IsBalanced k.arguments) : normalizeFrom start k.text =
      normalizeFrom start k.before ++ (k.name.toList ++
        '(' :: (normalizeFrom true k.arguments ++ ')' :: normalizeFrom true k.after)) := by
  obtain ⟨pieces, name, arguments, hdivided⟩ := h
  rw [text, normalizeFrom_append_of_call hdivided, normalizeFrom_letters (isAlphanum_name hname),
    normalizeFrom_append_closing true (isBalanced_iff_closes.1 hk)]

theorem Follows.isRegularIn_iff (h : k.Follows start) (hname : k.name ∈ mathFunctions)
    (hk : IsBalanced k.arguments) :
    k.IsRegularIn (normalizeFrom start k.text) ↔ IsRegular (normalizeFrom true k.arguments) := by
  have hink : ∀ start s, (normalizeFrom start s).filter isInk = s.filter isInk := fun start s =>
    filter_normalizeFrom (fun _ => of_isInk) start s
  let k' : Site := ⟨normalizeFrom start k.before, k.name, normalizeFrom true k.arguments,
    normalizeFrom true k.after⟩
  have htext : k'.text = normalizeFrom start k.text := (h.normalizeFrom_eq hname hk).symm
  have hsame : k.IsSame k' := ⟨hink _ _, rfl, hink _ _, hink _ _⟩
  constructor
  · rintro ⟨k'', htext'', hsame'', hregular⟩
    have harguments := arguments_unique hname hsame'' hsame (htext''.trans htext.symm)
    rwa [harguments] at hregular
  · exact fun hregular => ⟨k', htext, hsame, hregular⟩

end Site

/-- **Which calls are in order.** In a value with balanced parentheses that has been spaced, a call has
its whole argument text in order, within other arguments or outside of them, exactly if it does not stand
directly behind a call that was spaced, or its arguments are in order when they are spaced like a
value of their own. -/
theorem isRegularIn_normalize_iff (value : String) (hvalue : IsBalanced value.toList) (k : Site)
    (hk : k.IsIn value.toList) :
    k.IsRegularIn (normalize value).toList ↔
      (k.Follows true → IsRegular (normalize (String.ofList k.arguments)).toList) := by
  simp only [normalize, String.toList_ofList]
  obtain ⟨pieces, hpieces⟩ := exists_divided true value.toList
  constructor
  · intro hregular hfollows
    rw [← hk.text_eq] at hregular
    exact (hfollows.isRegularIn_iff hk.name hk.balanced).1 hregular
  · intro hfollows
    rcases hpieces.isRegularIn_or_follows (isBalanced_iff_closes.1 hvalue) hk fun _ => rfl with h | h
    · rwa [hpieces.normalizeFrom_eq]
    · rw [← hk.text_eq]
      exact (h.isRegularIn_iff hk.name hk.balanced).2 (hfollows h)

/-- A call directly behind another, with an operator in a call among its arguments. -/
def crowdedSite : Site where
  before    := "clamp(1px,_2vw+1rem,_9px)".toList
  name      := "max"
  arguments := "3px,min(4px*5,_6px)".toList
  after     := "_é".toList

theorem isRegularIn_normalize_iff_crowded :
    let value := "clamp(1px,_2vw+1rem,_9px)max(3px,min(4px*5,_6px))_é"
    IsBalanced value.toList ∧ crowdedSite.IsIn value.toList ∧ crowdedSite.Follows true ∧
      normalize value = "clamp(1px, 2vw + 1rem, 9px)max(3px,min(4px * 5, 6px))_é" ∧
      crowdedSite.IsRegularIn (normalize value).toList := by
  intro value
  have hvalue : IsBalanced value.toList := by decide
  have hk : crowdedSite.IsIn value.toList := by decide
  have hfollows : crowdedSite.Follows true :=
    Site.follows_of_call "clamp" "1px,_2vw+1rem,_9px".toList (by decide)
      (isBalanced_iff_closes.1 (by decide)) (by decide)
  have hregular : IsRegular (normalize (String.ofList crowdedSite.arguments)).toList := by decide +kernel
  exact ⟨hvalue, hk, hfollows, by decide +kernel,
    (isRegularIn_normalize_iff value hvalue crowdedSite hk).2 fun _ => hregular⟩

/-- The second of two calls with nothing between. -/
def secondSite : Site where
  before    := "calc(1px+2px)".toList
  name      := "calc"
  arguments := "3px+4px".toList
  after     := []

/-- Directly behind a spaced call the next one is left as it is. -/
theorem not_isRegularIn_normalize_second :
    let value := "calc(1px+2px)calc(3px+4px)"
    IsBalanced value.toList ∧ secondSite.IsIn value.toList ∧
      normalize value = "calc(1px + 2px)calc(3px+4px)" ∧
      ¬ secondSite.IsRegularIn (normalize value).toList := by
  intro value
  have hk : secondSite.IsIn value.toList := by decide
  have hfollows : secondSite.Follows true :=
    Site.follows_of_call "calc" "1px+2px".toList (by decide) (isBalanced_iff_closes.1 (by decide))
      (by decide)
  have hregular : ¬ IsRegular (normalizeFrom true secondSite.arguments) := by decide +kernel
  refine ⟨by decide, hk, by decide +kernel, fun h => hregular ?_⟩
  refine (hfollows.isRegularIn_iff hk.name hk.balanced).1 ?_
  rw [hk.text_eq]
  simpa [normalize] using h

end UtilityCss.Math
