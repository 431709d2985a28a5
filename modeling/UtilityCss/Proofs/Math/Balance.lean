import UtilityCss.Proofs.Math.Layout

/-!
# Balanced parentheses

The parentheses of a text are balanced if none closes before it opens and all that open close, by count
(`IsBalanced`). That is how calls are read: arguments end at the first parenthesis behind a balanced text
(`closing?_eq_some_iff`). Balanced arguments are read like a value of their own, whatever stands around
them (`normalizeFrom_append_closing`), and so is what stands before and behind a call that is spaced
(`normalizeFrom_append_of_call`).
-/

namespace UtilityCss.Math
open Text Value

variable {c : Char} {s t a b r rest arguments : List Char} {d e : Nat} {name : String} {start : Bool}
  {pieces others : List Piece}

/-! ### Counting parentheses -/

/-- No parenthesis closes before it opens, and every one that opens closes. -/
structure IsBalanced (s : List Char) : Prop where
  closed : s.count '(' = s.count ')'
  opened : ∀ t, t <+: s → t.count ')' ≤ t.count '('

theorem forall_prefix_cons {P : List Char → Prop} :
    (∀ t, t <+: c :: s → P t) ↔ P [] ∧ ∀ t, t <+: s → P (c :: t) := by
  constructor
  · intro h
    exact ⟨h [] List.nil_prefix, fun t ht => h (c :: t) (List.cons_prefix_cons.2 ⟨rfl, ht⟩)⟩
  · rintro ⟨hnil, hcons⟩ t ht
    rcases List.prefix_cons_iff.1 ht with rfl | ⟨u, rfl, hu⟩
    · exact hnil
    · exact hcons u hu

/-- A text closes `d` parentheses and its own if it has as many more that close than open, and no
part at its head has more. -/
theorem closes_iff_count : Closes d s ↔
    s.count ')' = d + s.count '(' ∧ ∀ t, t <+: s → t.count ')' ≤ d + t.count '(' := by
  induction s generalizing d with
  | nil =>
      constructor
      · intro h
        cases h
        exact ⟨rfl, fun t ht => by rw [List.prefix_nil.1 ht]; exact Nat.le_refl 0⟩
      · rintro ⟨h, -⟩
        obtain rfl : 0 = d := by simpa using h
        exact .nil
  | cons c s ih =>
      rw [forall_prefix_cons]
      by_cases ho : c = '('
      · subst ho
        rw [closes_opened_iff, ih]
        simp only [List.count_cons_self, List.count_cons_of_ne (show '(' ≠ ')' by decide),
          List.count_nil, Nat.add_zero, Nat.zero_le, true_and, Nat.add_assoc, Nat.add_comm 1]
      · by_cases hc : c = ')'
        · subst hc
          simp only [closes_closed_iff, ih, List.count_cons_self,
            List.count_cons_of_ne (show ')' ≠ '(' by decide), List.count_nil]
          constructor
          · rintro ⟨e, rfl, hcount, hprefix⟩
            exact ⟨by omega, Nat.zero_le _, fun t ht => by have := hprefix t ht; omega⟩
          · rintro ⟨hcount, -, hprefix⟩
            have hpos : 1 ≤ d := by simpa using hprefix [] List.nil_prefix
            exact ⟨d - 1, by omega, by omega, fun t ht => by have := hprefix t ht; omega⟩
        · have hp : isParenthesis c = false := by simp [isParenthesis, ho, hc]
          rw [closes_other_iff hp, ih]
          simp only [List.count_cons_of_ne ho, List.count_cons_of_ne hc, List.count_nil, Nat.zero_le,
            true_and]

theorem isBalanced_iff_closes : IsBalanced s ↔ Closes 0 s := by
  rw [closes_iff_count]
  constructor
  · intro h
    exact ⟨by rw [h.closed, Nat.zero_add], fun t ht => by rw [Nat.zero_add]; exact h.opened t ht⟩
  · rintro ⟨hcount, hprefix⟩
    exact ⟨by rw [hcount, Nat.zero_add], fun t ht => by simpa using hprefix t ht⟩

/-- Arguments end at the first parenthesis behind a balanced text. -/
theorem closing?_eq_some_iff : closing? 0 s = some (a, r) ↔ IsBalanced a ∧ s = a ++ ')' :: r := by
  constructor
  · intro h
    exact ⟨isBalanced_iff_closes.2 (closes_of_closing? h), append_of_closing? h⟩
  · rintro ⟨ha, rfl⟩
    exact (isBalanced_iff_closes.1 ha).closing? r

instance (s : List Char) : Decidable (IsBalanced s) :=
  decidable_of_iff (closing? 0 (s ++ [')']) = some (s, [])) (closing?_eq_some_iff.trans (and_iff_left rfl))

/-! ### Parts of texts that close -/

/-- What stands at the end of a text closes what was opened before it. -/
theorem Closes.of_suffix (h : Closes d s) (ht : t <:+ s) : ∃ e, Closes e t := by
  induction h with
  | nil =>
      rw [List.suffix_nil.1 ht]
      exact ⟨0, .nil⟩
  | opened h ih =>
      rcases List.suffix_cons_iff.1 ht with rfl | ht
      · exact ⟨_, .opened h⟩
      · exact ih ht
  | closed h ih =>
      rcases List.suffix_cons_iff.1 ht with rfl | ht
      · exact ⟨_, .closed h⟩
      · exact ih ht
  | other hc h ih =>
      rcases List.suffix_cons_iff.1 ht with rfl | ht
      · exact ⟨_, .other hc h⟩
      · exact ih ht

/-- A text that closes more than `e` parentheses falls into one that closes `e`, a parenthesis and what
closes the others. -/
theorem Closes.exists_append (h : Closes (d + e + 1) s) :
    ∃ a r, Closes e a ∧ Closes d r ∧ s = a ++ ')' :: r := by
  generalize hn : d + e + 1 = n at h
  induction h generalizing e with
  | nil => cases hn
  | opened _ ih =>
      obtain ⟨a, r, ha, hr, rfl⟩ := ih (e := e + 1) (by omega)
      exact ⟨_, r, .opened ha, hr, rfl⟩
  | @closed m s h ih =>
      cases e with
      | zero =>
          obtain rfl : d = m := by omega
          exact ⟨[], s, .nil, h, rfl⟩
      | succ e =>
          obtain ⟨a, r, ha, hr, rfl⟩ := ih (e := e) (by omega)
          exact ⟨_, r, .closed ha, hr, rfl⟩
  | other hc _ ih =>
      obtain ⟨a, r, ha, hr, rfl⟩ := ih hn
      exact ⟨_, r, .other hc ha, hr, rfl⟩

/-- A parenthesis that opens in such a text closes there. -/
theorem Closes.exists_closing (h : Closes d (b ++ '(' :: s)) :
    ∃ a r e, Closes 0 a ∧ Closes e r ∧ s = a ++ ')' :: r := by
  obtain ⟨e, he⟩ := h.of_suffix (List.suffix_append b ('(' :: s))
  obtain ⟨a, r, ha, hr, rfl⟩ := Closes.exists_append (e := 0) (closes_opened_iff.1 he)
  exact ⟨a, r, e, ha, hr, rfl⟩

/-! ### Texts read one behind the other -/

/-- No name stretches across a closing parenthesis. -/
theorem not_prefix_append_closing (h : name ∈ mathFunctions) (hs : ¬ name.toList ++ ['('] <+: s)
    (t : List Char) : ¬ name.toList ++ ['('] <+: s ++ ')' :: t := by
  have hnot : ∀ name ∈ mathFunctions, ')' ∉ name.toList ++ ['('] := by decide
  exact fun hp => hs (prefix_of_prefix_append_cons (hnot name h) hp)

namespace Divided

/-- A text that closes what was opened before it, a closing parenthesis and the rest are divided each on
its own. -/
theorem append_closing (h : Divided start s pieces) (hs : Closes d s) (ht : Divided true t others) :
    Divided start (s ++ ')' :: t) (pieces ++ .kept ')' :: others) := by
  induction h generalizing d with
  | nil start =>
      refine .kept (fun _ name hn => not_prefix_append_closing (s := []) hn (fun hp => ?_) t) ht
      exact List.concat_ne_nil _ _ (List.prefix_nil.1 hp)
  | @call name a rest pieces hname hclosed hrest ih =>
      obtain ⟨e, he⟩ := hs.of_suffix (t := rest) ⟨name.toList ++ '(' :: (a ++ [')']), by simp⟩
      simpa using Divided.call hname hclosed (ih he)
  | @unclosed name s hname hopen =>
      obtain ⟨a, r, -, ha, -, rfl⟩ := hs.exists_closing
      exact absurd rfl (hopen a r ha)
  | @kept start c s pieces hname hrest ih =>
      obtain ⟨e, he⟩ := hs.of_suffix (List.suffix_cons c s)
      exact .kept (fun hstart name hn => not_prefix_append_closing hn (hname hstart name hn) t) (ih he)

/-- A text whose last piece is a call, and the rest behind it, where no call may begin at once, are divided
each on its own. -/
theorem append_call (h : Divided start s (pieces ++ [.call name arguments]))
    (ht : Divided false t others) :
    Divided start (s ++ t) (pieces ++ .call name arguments :: others) := by
  generalize hps : pieces ++ [.call name arguments] = ps at h
  induction h generalizing pieces with
  | nil start => simp at hps
  | @call _ a rest _ hname hclosed hrest ih =>
      cases pieces with
      | nil =>
          obtain ⟨hcall, rfl⟩ := List.cons.inj hps
          cases hcall
          cases hrest
          simpa using Divided.call hname hclosed ht
      | cons piece pieces =>
          obtain ⟨rfl, hlater⟩ := List.cons.inj hps
          simpa using Divided.call hname hclosed (ih hlater)
  | unclosed hname hopen =>
      have hmem := List.mem_append_right pieces (List.mem_singleton_self (Piece.call name arguments))
      rw [hps] at hmem
      obtain ⟨c, -, hc⟩ := List.mem_map.1 hmem
      cases hc
  | @kept _ c s _ hname hrest ih =>
      cases pieces with
      | nil => cases (List.cons.inj hps).1
      | cons piece pieces =>
          obtain ⟨rfl, hlater⟩ := List.cons.inj hps
          -- the text ends with the parenthesis of the call, which no name holds
          obtain ⟨before, hs⟩ : ∃ before, s = before ++ [')'] := by
            refine ⟨pieces.flatMap Piece.text ++ (name.toList ++ '(' :: arguments), ?_⟩
            rw [← hrest.text_eq, ← hlater]
            simp [Piece.text]
          have htext : c :: (s ++ t) = c :: before ++ ')' :: t := by simp [hs]
          refine .kept (fun hstart n hn => ?_) (ih hlater)
          have hnot : ¬ n.toList ++ ['('] <+: c :: before := fun hp =>
            hname hstart n hn (hp.trans ⟨[')'], by rw [hs]; rfl⟩)
          show ¬ n.toList ++ ['('] <+: c :: (s ++ t)
          rw [htext]
          exact not_prefix_append_closing hn hnot t

end Divided

/-- Balanced text in front of a closing parenthesis is read like a value of its own. -/
theorem normalizeFrom_append_closing (start : Bool) (hs : Closes d s) (t : List Char) :
    normalizeFrom start (s ++ ')' :: t) = normalizeFrom start s ++ ')' :: normalizeFrom true t := by
  obtain ⟨pieces, hpieces⟩ := exists_divided start s
  obtain ⟨others, hothers⟩ := exists_divided true t
  rw [(hpieces.append_closing hs hothers).normalizeFrom_eq, hpieces.normalizeFrom_eq,
    hothers.normalizeFrom_eq, List.flatMap_append, List.flatMap_cons]
  rfl

/-- What stands behind a spaced call is read on its own. -/
theorem normalizeFrom_append_of_call (h : Divided start s (pieces ++ [.call name arguments]))
    (t : List Char) : normalizeFrom start (s ++ t) = normalizeFrom start s ++ normalizeFrom false t := by
  obtain ⟨others, hothers⟩ := exists_divided false t
  rw [(h.append_call hothers).normalizeFrom_eq, h.normalizeFrom_eq, hothers.normalizeFrom_eq,
    List.flatMap_append, List.flatMap_append, List.flatMap_cons, List.flatMap_singleton, List.append_assoc]

/-- Behind a letter no call begins, up to the parenthesis that follows the letters. -/
theorem normalizeFrom_letters (hs : ∀ c ∈ s, c.isAlphanum) (t : List Char) :
    normalizeFrom false (s ++ '(' :: t) = s ++ '(' :: normalizeFrom true t := by
  induction s with
  | nil => exact normalizeFrom_false '(' t
  | cons c s ih =>
      rw [List.cons_append, normalizeFrom_false, hs c List.mem_cons_self, Bool.not_true,
        ih fun d hd => hs d (List.mem_cons_of_mem c hd)]
      rfl

end UtilityCss.Math
