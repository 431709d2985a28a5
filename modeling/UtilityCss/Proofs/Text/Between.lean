import UtilityCss.Proofs.Text.Search
import Mathlib.Data.List.Basic
import Mathlib.Data.List.Infix

/-!
# Passages between two words

A passage from an opener through the nearest closer stands in a text exactly if the closer stands
somewhere behind the opener (`Text.Encloses`), and only then does cutting change the text
(`Text.Passage.cut_between_eq_self_iff`).

If no part of the opener and no part of the closer is both at its head and at its end
(`Text.Unbordered`), neither can be found across the place where it begins. So a passage begins with
the first opener and ends with the first closer, whatever stands before them, and what is between them
is cut out without a trace (`Text.Passage.cut_between`).
-/

namespace UtilityCss.Text

variable {p s t r before hidden rest opener closer : List Char}

/-- No part of a word but the whole of it is both at its head and at its end. -/
def Unbordered (p : List Char) : Prop := ∀ q ∈ p.tails, q <+: p → q = [] ∨ q = p

instance (p : List Char) : Decidable (Unbordered p) :=
  inferInstanceAs (Decidable (∀ q ∈ p.tails, q <+: p → q = [] ∨ q = p))

/-- A closer stands in a text behind an opener. -/
def Encloses (opener closer s : List Char) : Prop :=
  ∃ before hidden rest, s = before ++ (opener ++ (hidden ++ (closer ++ rest)))

/-! ### The first place of a word -/

theorem dropPrefix?_eq_none_iff : dropPrefix? p s = none ↔ ¬ p <+: s := by
  rw [Option.eq_none_iff_forall_ne_some]
  constructor
  · rintro h ⟨r, rfl⟩
    exact h r (dropPrefix?_append p r)
  · intro h r hr
    exact h ⟨r, (dropPrefix?_eq_some_iff.1 hr).symm⟩

theorem after?_eq_none_iff : after? p s = none ↔ ¬ p <:+: s := by
  rw [← occurs_iff, occurs, Option.not_isSome_iff_eq_none]

/-- A word that is not in a text does not begin there before the word itself. -/
theorem Unbordered.not_prefix (hp : Unbordered p) (hs : ¬ p <:+: s) (hr : r <:+ s) (hne : r ≠ [])
    (t : List Char) : ¬ p <+: r ++ (p ++ t) := by
  intro h
  have hlacks : ¬ p <:+: r := fun hpr => hs (hpr.trans hr.isInfix)
  rcases List.prefix_or_prefix_of_prefix h (List.prefix_append r (p ++ t)) with hpr | hrp
  · exact hlacks hpr.isInfix
  · obtain ⟨q, hq⟩ := hrp
    -- what is left of the word behind the text stands at the head of the word too
    have hhead : q <+: p := by
      rw [← hq, List.prefix_append_right_inj, hq] at h
      exact List.prefix_of_prefix_length_le h (List.prefix_append p t)
        (hq ▸ (List.suffix_append r q).length_le)
    rcases hp q ((List.mem_tails q p).2 ⟨r, hq⟩) hhead with rfl | rfl
    · rw [List.append_nil] at hq
      exact hlacks (hq ▸ List.infix_refl _)
    · exact hne (List.append_left_eq_self.1 hq)

/-- A search comes to the first place where the word stands. -/
theorem Unbordered.after?_append (hp : Unbordered p) (hne : p ≠ []) (hs : ¬ p <:+: s)
    (t : List Char) : after? p (s ++ (p ++ t)) = some t := by
  induction s with
  | nil =>
      obtain ⟨a, q, rfl⟩ := List.exists_cons_of_ne_nil hne
      have hself := dropPrefix?_append (a :: q) t
      rw [List.cons_append] at hself
      rw [List.nil_append, List.cons_append, after?, hself]
  | cons c s ih =>
      have hhead := hp.not_prefix hs (List.suffix_refl _) (List.cons_ne_nil c s) t
      rw [List.cons_append] at hhead
      rw [List.cons_append, after?, dropPrefix?_eq_none_iff.2 hhead]
      exact ih fun h => hs (List.infix_cons h)

namespace Passage

/-! ### Texts that cutting leaves -/

/-- Cutting leaves a text exactly if no passage begins in it. -/
theorem cut_eq_self_iff {P : Passage} : P.cut s = s ↔ ∀ r, r <:+ s → P.rest? r = none := by
  induction s with
  | nil =>
      refine iff_of_true (by rw [cut]) fun r hr => ?_
      rw [List.suffix_nil.1 hr, Option.eq_none_iff_forall_ne_some]
      exact fun t ht => Nat.not_lt_zero _ (P.shorter ht)
  | cons c s ih =>
      simp only [List.suffix_cons_iff, forall_eq_or_imp]
      rw [← ih]
      cases hhead : P.rest? (c :: s) with
      | none => simp [cut_cons_of_none hhead]
      | some t =>
          -- what is cut is shorter than the text was
          have hlt : (P.cut t).length < (c :: s).length :=
            (P.cut_sublist t).length_le.trans_lt (P.shorter hhead)
          rw [cut_of_rest? hhead]
          refine iff_of_false (fun h => ?_) (by simp)
          rw [h] at hlt
          exact Nat.lt_irrefl _ hlt

variable {h : opener ≠ []}

theorem between_rest?_eq_none_iff : (between opener closer h).rest? s = none ↔
    ∀ hidden rest, s ≠ opener ++ (hidden ++ (closer ++ rest)) := by
  have hrest : (between opener closer h).rest? s = (dropPrefix? opener s).bind (after? closer) := rfl
  rw [hrest, Option.bind_eq_none_iff]
  constructor
  · rintro hnone hidden rest rfl
    have hlacks := after?_eq_none_iff.1 (hnone _ (dropPrefix?_append opener _))
    exact hlacks ⟨hidden, rest, List.append_assoc _ _ _⟩
  · intro hne t ht
    refine after?_eq_none_iff.2 ?_
    rintro ⟨hidden, rest, rfl⟩
    refine hne hidden rest ?_
    rw [dropPrefix?_eq_some_iff.1 ht, List.append_assoc]

/-- Cutting leaves a text exactly if no closer stands behind an opener. -/
theorem cut_between_eq_self_iff :
    (between opener closer h).cut s = s ↔ ¬ Encloses opener closer s := by
  rw [cut_eq_self_iff]
  constructor
  · rintro hnone ⟨before, hidden, rest, rfl⟩
    exact between_rest?_eq_none_iff.1 (hnone _ (List.suffix_append before _)) hidden rest rfl
  · rintro hnot r ⟨before, rfl⟩
    refine between_rest?_eq_none_iff.2 ?_
    rintro hidden rest rfl
    exact hnot ⟨before, hidden, rest, rfl⟩

/-! ### What stands between the words -/

/-- A passage is cut out from the first opener through the first closer, whatever stands between. -/
theorem cut_between (ho : Unbordered opener) (hc : Unbordered closer) (hne : closer ≠ [])
    (hbefore : ¬ opener <:+: before) (hhidden : ¬ closer <:+: hidden) (rest : List Char) :
    (between opener closer h).cut (before ++ (opener ++ (hidden ++ (closer ++ rest)))) =
      before ++ (between opener closer h).cut rest := by
  have hskips : (between opener closer h).Skips before (opener ++ (hidden ++ (closer ++ rest))) := by
    intro r hr hrne
    refine between_rest?_eq_none_iff.2 fun hidden' rest' heq => ?_
    exact ho.not_prefix hbefore hr hrne _ ⟨_, heq.symm⟩
  have hrest : (between opener closer h).rest? (opener ++ (hidden ++ (closer ++ rest))) = some rest := by
    change (dropPrefix? opener _).bind (after? closer) = some rest
    rw [dropPrefix?_append, Option.bind_some, hc.after?_append hne hhidden]
  rw [cut_append hskips, cut_of_rest? hrest]

end Passage

theorem not_encloses (h : ¬ opener <:+: s) : ¬ Encloses opener closer s := by
  rintro ⟨before, hidden, rest, rfl⟩
  exact h ⟨before, hidden ++ (closer ++ rest), List.append_assoc _ _ _⟩

end UtilityCss.Text
