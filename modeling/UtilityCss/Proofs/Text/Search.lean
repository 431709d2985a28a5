import UtilityCss.Proofs.Text

/-!
# Words looked for in a text

A text lacks a word if the word stands nowhere in it, case ignored (`Text.Lacks`). A word reaches over
a character only if that is one of its own. So texts that are joined at a character which none but the
first of a word is like lack the word if each of them does (`Text.lacks_append_cons`), and a search
passes over a text that lacks the word up to such a character (`Text.afterLower?_append_cons`). Where a
text is cut before a word, that is the first place where the word stands
(`Text.isFirst_of_splitBeforeLower?`), and a text that is not cut lacks it
(`Text.splitBeforeLower?_eq_none_iff`).

Passages are found from left to right (`Text.Passage.finds`). Where none begins in the part before
another, that part is passed over by the search and kept by the cut
(`Text.Passage.finds_append`, `Text.Passage.cut_append`).
-/

namespace UtilityCss.Text

variable {a c : Char} {p r s t before rest : List Char}

/-- A word stands nowhere in a text, case ignored. -/
def Lacks (p s : List Char) : Prop := ∀ r, r <:+ s → dropPrefixLower? p r = none

/-- A word in which every letter is a lower one. -/
def IsLower (p : List Char) : Prop := ∀ a ∈ p, matchesLower a a

instance (p : List Char) : Decidable (IsLower p) := List.decidableBAll _ p

/-- The first place in `before ++ rest` where a word stands, case ignored, is before `rest`. -/
structure IsFirst (p before rest : List Char) : Prop where
  stands : (dropPrefixLower? p rest).isSome
  least  : ∀ r, r <:+ before ++ rest → (dropPrefixLower? p r).isSome → r <:+ rest

/-! ### Texts without a word -/

theorem lacks_nil (a : Char) (p : List Char) : Lacks (a :: p) [] := by
  intro r hr
  rw [List.suffix_nil.1 hr]
  rfl

theorem lacks_cons : Lacks p (c :: s) ↔ dropPrefixLower? p (c :: s) = none ∧ Lacks p s := by
  constructor
  · intro h
    exact ⟨h _ (List.suffix_refl _), fun r hr => h r (hr.trans (List.suffix_cons c s))⟩
  · rintro ⟨hhead, hlater⟩ r hr
    rcases List.suffix_cons_iff.1 hr with rfl | hr
    · exact hhead
    · exact hlater r hr

theorem afterLower?_eq_none_iff : afterLower? p s = none ↔ Lacks p s := by
  induction s with
  | nil =>
      cases p with
      | nil => exact iff_of_false (by simp [afterLower?]) fun h => by cases h [] (List.suffix_refl _)
      | cons a p => exact iff_of_true rfl (lacks_nil a p)
  | cons c s ih =>
      rw [lacks_cons, ← ih, afterLower?]
      cases dropPrefixLower? p (c :: s) <;> simp

instance (p s : List Char) : Decidable (Lacks p s) := decidable_of_iff _ afterLower?_eq_none_iff

theorem dropPrefixLower?_append (h : dropPrefixLower? p s = some r) (t : List Char) :
    dropPrefixLower? p (s ++ t) = some (r ++ t) := by
  induction p generalizing s with
  | nil =>
      cases h
      rfl
  | cons a p ih =>
      cases s with
      | nil => cases h
      | cons b s =>
          rw [dropPrefixLower?] at h
          rw [List.cons_append, dropPrefixLower?]
          split at h
          · rename_i hab
            rw [if_pos hab, ih h]
          · cases h

/-- A word in lower case stands at its own head. -/
theorem dropPrefixLower?_self_append (hp : IsLower p) (t : List Char) :
    dropPrefixLower? p (p ++ t) = some t := by
  induction p with
  | nil => rfl
  | cons a p ih =>
      obtain ⟨ha, hp⟩ := List.forall_mem_cons.1 hp
      rw [List.cons_append, dropPrefixLower?, if_pos ha, ih hp]

/-- What stands in a text that lacks a word lacks it. -/
theorem Lacks.of_infix (h : Lacks p t) (hs : s <:+: t) : Lacks p s := by
  obtain ⟨l, l', rfl⟩ := hs
  intro r hr
  refine Option.eq_none_iff_forall_ne_some.2 fun u hu => ?_
  have hsuffix : r ++ l' <:+ l ++ s ++ l' :=
    List.suffix_append_self_iff.2 (hr.trans (List.suffix_append l s))
  have hnone := h _ hsuffix
  rw [dropPrefixLower?_append hu] at hnone
  cases hnone

theorem IsFirst.not_lacks (h : IsFirst p before rest) : ¬ Lacks p (before ++ rest) := by
  intro hlacks
  have hstands := h.stands
  rw [hlacks rest (List.suffix_append before rest)] at hstands
  cases hstands

/-- Where case counts, a word occurs in a text if it stands somewhere in it. -/
theorem occurs_iff : occurs p s ↔ p <:+: s := by
  induction s with
  | nil => cases p <;> simp [occurs, after?]
  | cons c s ih =>
      rw [List.infix_cons_iff, ← ih, occurs, occurs, after?]
      cases hhead : dropPrefix? p (c :: s) with
      | some r =>
          have hstarts : p <+: c :: s := ⟨r, (dropPrefix?_eq_some_iff.1 hhead).symm⟩
          simp [hstarts]
      | none =>
          have hstarts : ¬ p <+: c :: s := by
            rintro ⟨r, hr⟩
            rw [dropPrefix?_eq_some_iff.2 hr.symm] at hhead
            cases hhead
          simp [hstarts]

/-! ### Texts joined at a character -/

/-- A word that begins before a character that it misses is over there. -/
theorem dropPrefixLower?_cons_append_cons (hp : Misses p c) (b : Char) :
    dropPrefixLower? (a :: p) (b :: (s ++ c :: t)) = none ↔
      dropPrefixLower? (a :: p) (b :: s) = none := by
  rw [dropPrefixLower?, dropPrefixLower?]
  split
  · rw [← Option.not_isSome_iff_eq_none, dropPrefixLower?_append_cons hp,
      Option.not_isSome_iff_eq_none]
  · exact Iff.rfl

theorem lacks_append_cons (hp : Misses p c) :
    Lacks (a :: p) (s ++ c :: t) ↔ Lacks (a :: p) s ∧ Lacks (a :: p) (c :: t) := by
  induction s with
  | nil => exact (and_iff_right (lacks_nil a p)).symm
  | cons b s ih =>
      rw [List.cons_append, lacks_cons, dropPrefixLower?_cons_append_cons hp, ih, lacks_cons (c := b),
        and_assoc]

theorem lacks_cons_of_misses (hp : Misses (a :: p) c) :
    Lacks (a :: p) (c :: t) ↔ Lacks (a :: p) t := by
  have hhead : dropPrefixLower? (a :: p) (c :: t) = none := by
    rw [dropPrefixLower?, hp a List.mem_cons_self]
    rfl
  rw [lacks_cons, and_iff_right hhead]

/-- A search passes over a text that lacks the word. -/
theorem afterLower?_append_cons (hp : Misses p c) (h : Lacks (a :: p) s) :
    afterLower? (a :: p) (s ++ c :: t) = afterLower? (a :: p) (c :: t) := by
  induction s with
  | nil => rfl
  | cons b s ih =>
      obtain ⟨hhead, hlater⟩ := lacks_cons.1 h
      rw [List.cons_append, afterLower?, (dropPrefixLower?_cons_append_cons hp b).2 hhead, ih hlater]

/-! ### Texts cut before a word -/

theorem splitBeforeLower?_eq_none_iff : splitBeforeLower? p s = none ↔ Lacks p s := by
  induction s with
  | nil =>
      cases p with
      | nil =>
          exact iff_of_false (by simp [splitBeforeLower?]) fun h => by cases h [] (List.suffix_refl _)
      | cons a p => exact iff_of_true rfl (lacks_nil a p)
  | cons c s ih =>
      rw [lacks_cons, ← ih, splitBeforeLower?]
      cases dropPrefixLower? p (c :: s) <;> simp

/-- A text is cut at the first place where the word stands. -/
theorem isFirst_of_splitBeforeLower? (h : splitBeforeLower? p s = some (before, rest)) :
    IsFirst p before rest := by
  induction s generalizing before with
  | nil =>
      unfold splitBeforeLower? at h
      split at h
      · rename_i hp
        cases h
        subst hp
        exact ⟨rfl, fun r hr _ => hr⟩
      · cases h
  | cons c s ih =>
      unfold splitBeforeLower? at h
      split at h
      · rename_i hhead
        cases h
        exact ⟨hhead, fun r hr _ => hr⟩
      · rename_i hhead
        obtain ⟨⟨later, _⟩, hlater, hparts⟩ := Option.map_eq_some_iff.1 h
        cases hparts
        have hs := splitBeforeLower?_eq hlater
        have hfirst := ih hlater
        refine ⟨hfirst.stands, fun r hr hstands => ?_⟩
        rw [List.cons_append, ← hs] at hr
        rcases List.suffix_cons_iff.1 hr with rfl | hr
        · exact absurd hstands hhead
        · exact hfirst.least r (hs ▸ hr) hstands

/-! ### Passages -/

namespace Passage

variable {P : Passage}

/-- The passages of a text, found from left to right, each with what follows it. -/
def finds (P : Passage) : List Char → List (List Char × List Char)
  | []     => []
  | c :: s =>
    match _h : P.rest? (c :: s) with
    | some r => ((c :: s).take ((c :: s).length - r.length), r) :: P.finds r
    | none   => P.finds s
termination_by s => s.length
decreasing_by
  · exact P.shorter _h
  · simp

theorem finds_cons_of_none (h : P.rest? (c :: s) = none) : P.finds (c :: s) = P.finds s := by
  rw [finds]
  split
  · rename_i hr
    rw [h] at hr
    cases hr
  · rfl

theorem finds_of_rest? (h : P.rest? (r ++ t) = some t) : P.finds (r ++ t) = (r, t) :: P.finds t := by
  have hshorter := P.shorter h
  have htake : (r ++ t).take ((r ++ t).length - t.length) = r := by simp
  cases hs : r ++ t with
  | nil =>
      rw [hs] at hshorter
      exact absurd hshorter (Nat.not_lt_zero _)
  | cons c s =>
      rw [hs] at h htake
      rw [finds]
      split
      · rename_i hr
        rw [h] at hr
        cases hr
        rw [htake]
      · rename_i hr
        rw [h] at hr
        cases hr

/-- No passage begins in a text before another. -/
def Skips (P : Passage) (s t : List Char) : Prop := ∀ r, r <:+ s → r ≠ [] → P.rest? (r ++ t) = none

theorem Skips.cons (h : P.Skips (c :: s) t) : P.rest? (c :: (s ++ t)) = none ∧ P.Skips s t :=
  ⟨h (c :: s) (List.suffix_refl _) (List.cons_ne_nil c s),
    fun r hr hne => h r (hr.trans (List.suffix_cons c s)) hne⟩

theorem finds_append (h : P.Skips s t) : P.finds (s ++ t) = P.finds t := by
  induction s with
  | nil => rfl
  | cons c s ih =>
      obtain ⟨hnone, hs⟩ := h.cons
      rw [List.cons_append, finds_cons_of_none hnone, ih hs]

theorem cut_append (h : P.Skips s t) : P.cut (s ++ t) = s ++ P.cut t := by
  induction s with
  | nil => rfl
  | cons c s ih =>
      obtain ⟨hnone, hs⟩ := h.cons
      rw [List.cons_append, cut_cons_of_none hnone, ih hs, List.cons_append]

end Passage

end UtilityCss.Text
