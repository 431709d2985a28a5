import UtilityCss.Proofs.Math.Words

/-!
# Calls met again

A text that has been spaced is read again. Its calls are the ones that were spaced: a name is read
off the head of a text whatever follows it (`opening?_append`), no name arises where there was none
(`opening?_cons_normalizeFrom`), and the parenthesis that closes a call depends on the parentheses
alone (`closing?_of_filter_eq`), which spacing keeps. So a text that has been spaced is kept, and so is
one whose first call has been spaced (`normalize_idempotent`).
-/

namespace UtilityCss.Math
open Text Value

variable {c : Char} {s r a b w head rest : List Char} {d : Nat} {start : Bool}

/-! ### The closing parenthesis -/

def isParenthesis (c : Char) : Bool := c = '(' || c = ')'

/-- A text that closes `d` parentheses which are open before it, and its own. -/
inductive Closes : Nat → List Char → Prop where
  | nil : Closes 0 []
  | opened {d : Nat} {s : List Char} (h : Closes (d + 1) s) : Closes d ('(' :: s)
  | closed {d : Nat} {s : List Char} (h : Closes d s) : Closes (d + 1) (')' :: s)
  | other {d : Nat} {c : Char} {s : List Char} (hc : isParenthesis c = false) (h : Closes d s) :
      Closes d (c :: s)

theorem closing?_other (hc : isParenthesis c = false) (d : Nat) (s : List Char) :
    closing? d (c :: s) = (closing? d s).map fun r => (c :: r.1, r.2) := by
  simp only [isParenthesis, Bool.or_eq_false_iff, decide_eq_false_iff_not] at hc
  rw [closing?]
  · exact hc.1
  · exact hc.2

theorem Closes.closing? (h : Closes d a) (r : List Char) :
    closing? d (a ++ ')' :: r) = some (a, r) := by
  induction h with
  | nil => rfl
  | opened _ ih => simp [Math.closing?, ih]
  | closed _ ih => simp [Math.closing?, ih]
  | other hc _ ih => rw [List.cons_append, closing?_other hc, ih]; rfl

theorem closes_of_closing? (h : closing? d s = some (a, r)) : Closes d a := by
  fun_induction Math.closing? d s generalizing a r with
  | case1 => cases h
  | case2 d s ih =>
      obtain ⟨p, hp, e⟩ := Option.map_eq_some_iff.1 h
      cases e
      exact .opened (ih hp)
  | case3 s =>
      cases h
      exact .nil
  | case4 s d ih =>
      obtain ⟨p, hp, e⟩ := Option.map_eq_some_iff.1 h
      cases e
      exact .closed (ih hp)
  | case5 d c s ho hc ih =>
      obtain ⟨p, hp, e⟩ := Option.map_eq_some_iff.1 h
      cases e
      exact .other (by simp_all [isParenthesis]) (ih hp)

theorem closes_other_iff (hc : isParenthesis c = false) : Closes d (c :: s) ↔ Closes d s := by
  constructor
  · intro h
    cases h with
    | opened _ | closed _ => cases hc
    | other _ h => exact h
  · exact .other hc

theorem closes_opened_iff : Closes d ('(' :: s) ↔ Closes (d + 1) s := by
  constructor
  · intro h
    cases h with
    | opened h => exact h
    | other hc _ => cases hc
  · exact .opened

theorem closes_closed_iff : Closes d (')' :: s) ↔ ∃ e, d = e + 1 ∧ Closes e s := by
  constructor
  · intro h
    cases h with
    | closed h => exact ⟨_, rfl, h⟩
    | other hc _ => cases hc
  · rintro ⟨e, rfl, h⟩
    exact .closed h

/-- What a text closes depends on its parentheses alone. -/
theorem closes_filter_iff : Closes d (a.filter isParenthesis) ↔ Closes d a := by
  induction a generalizing d with
  | nil => exact Iff.rfl
  | cons c a ih =>
      by_cases ho : c = '('
      · subst ho
        exact closes_opened_iff.trans (ih.trans closes_opened_iff.symm)
      · by_cases hc : c = ')'
        · subst hc
          exact closes_closed_iff.trans
            ((exists_congr fun e => and_congr_right fun _ => ih).trans closes_closed_iff.symm)
        · have hp : isParenthesis c = false := by simp [isParenthesis, ho, hc]
          rw [List.filter_cons_of_neg (by simp [hp]), closes_other_iff hp, ih]

/-- Two texts with the same parentheses end at the same one. -/
theorem closing?_of_filter_eq (h : closing? 0 s = some (a, r))
    (e : b.filter isParenthesis = a.filter isParenthesis) (t : List Char) :
    closing? 0 (b ++ ')' :: t) = some (b, t) := by
  have hb : Closes 0 b := by
    rw [← closes_filter_iff, e, closes_filter_iff]
    exact closes_of_closing? h
  exact hb.closing? t

theorem filter_isParenthesis_spaceArguments (s : List Char) :
    (spaceArguments s).filter isParenthesis = s.filter isParenthesis := by
  refine filter_spaceArguments (fun c hc => ?_) s
  simp only [isParenthesis, Bool.or_eq_true, decide_eq_true_eq] at hc
  rcases hc with rfl | rfl <;> decide

/-! ### The name of a call -/

theorem exists_name_of_opening? (h : opening? s = some (head, r)) :
    ∃ name ∈ mathFunctions, head = name.toList ++ ['('] := by
  obtain ⟨name, hn, e⟩ := List.exists_of_findSome?_eq_some h
  obtain ⟨t, ht, e⟩ := Option.map_eq_some_iff.1 e
  cases e
  exact ⟨name, hn, rfl⟩

theorem opening?_of_name (name : String) (h : name ∈ mathFunctions) (t : List Char) :
    opening? (name.toList ++ ['('] ++ t) = some (name.toList ++ ['('], t) := by
  simp only [mathFunctions, List.mem_cons, List.not_mem_nil, or_false] at h
  rcases h with rfl | rfl | rfl | rfl <;> rfl

/-- A name is read off the head, whatever follows it. -/
theorem opening?_append (h : opening? s = some (head, r)) (t : List Char) :
    opening? (head ++ t) = some (head, t) := by
  obtain ⟨name, hn, rfl⟩ := exists_name_of_opening? h
  exact opening?_of_name name hn t

/-- The name of a call is made of letters. -/
theorem letters_of_opening? (h : opening? s = some (head, r)) :
    ∃ x w, head = x :: w ++ ['('] ∧ ∀ c ∈ x :: w, c.isAlphanum := by
  obtain ⟨name, hn, rfl⟩ := exists_name_of_opening? h
  have hall : ∀ name ∈ mathFunctions, name.toList ≠ [] ∧ name.toList.all Char.isAlphanum := by decide
  obtain ⟨hne, hletters⟩ := hall name hn
  obtain ⟨x, w, hname⟩ := List.exists_cons_of_ne_nil hne
  rw [hname] at hletters ⊢
  exact ⟨x, w, rfl, List.all_eq_true.1 hletters⟩

/-! ### Reading on -/

theorem normalizeFrom_nil (start : Bool) : normalizeFrom start [] = [] := by rw [normalizeFrom]

/-- Where no call may begin, none does. -/
theorem normalizeFrom_false (c : Char) (s : List Char) :
    normalizeFrom false (c :: s) = c :: normalizeFrom (!c.isAlphanum) s := by
  rw [normalizeFrom]
  rfl

/-- Where no name stands, no call begins. -/
theorem normalizeFrom_of_none (h : opening? (c :: s) = none) :
    normalizeFrom true (c :: s) = c :: normalizeFrom (!c.isAlphanum) s := by
  rw [normalizeFrom]
  split
  · rename_i ho
    cases h.symm.trans ho
  · rfl

/-- A call whose parenthesis is not closed is the last thing that is read. -/
theorem normalizeFrom_of_unclosed (ho : opening? s = some (head, r)) (hc : closing? 0 r = none) :
    normalizeFrom true s = s := by
  cases s with
  | nil => exact normalizeFrom_nil true
  | cons c s =>
      rw [normalizeFrom]
      split
      · rename_i ho'
        cases ho.symm.trans ho'
        split
        · rename_i hc'
          cases hc.symm.trans hc'
        · rfl
      · rename_i ho'
        cases ho.symm.trans ho'

/-- A call is spaced, and behind it none begins at once. -/
theorem normalizeFrom_of_call (ho : opening? s = some (head, r))
    (hc : closing? 0 r = some (a, rest)) :
    normalizeFrom true s = head ++ spaceArguments a ++ ')' :: normalizeFrom false rest := by
  cases s with
  | nil => cases ho
  | cons c s =>
      rw [normalizeFrom]
      split
      · rename_i ho'
        cases ho.symm.trans ho'
        split
        · rename_i hc'
          cases hc.symm.trans hc'
          rfl
        · rename_i hc'
          cases hc.symm.trans hc'
      · rename_i ho'
        cases ho.symm.trans ho'

/-- A spaced call is read as it was written. -/
theorem call_of_spaced (ho : opening? s = some (head, r)) (hc : closing? 0 r = some (a, rest))
    (t : List Char) :
    opening? (head ++ spaceArguments a ++ ')' :: t) = some (head, spaceArguments a ++ ')' :: t) ∧
      closing? 0 (spaceArguments a ++ ')' :: t) = some (spaceArguments a, t) := by
  rw [List.append_assoc]
  exact ⟨opening?_append ho _, closing?_of_filter_eq hc (filter_isParenthesis_spaceArguments a) t⟩

/-- A name that stands at the head of a text behind a letter stood there before. -/
theorem prefix_of_normalizeFrom (hw : ∀ c ∈ w, c.isAlphanum)
    (h : w ++ ['('] <+: normalizeFrom false s) : w ++ ['('] <+: s := by
  induction w generalizing s with
  | nil =>
      cases s with
      | nil => rwa [normalizeFrom_nil] at h
      | cons c s =>
          rw [normalizeFrom_false] at h
          exact List.cons_prefix_cons.2 ⟨(List.cons_prefix_cons.1 h).1, List.nil_prefix⟩
  | cons x w ih =>
      cases s with
      | nil => rwa [normalizeFrom_nil] at h
      | cons c s =>
          rw [normalizeFrom_false] at h
          obtain ⟨rfl, h⟩ := List.cons_prefix_cons.1 h
          -- behind a letter no call begins, so the rest was read in the same way
          rw [hw x List.mem_cons_self] at h
          exact List.cons_prefix_cons.2 ⟨rfl, ih (fun c hc => hw c (List.mem_cons_of_mem x hc)) h⟩

/-- Reading on makes no name where there was none. -/
theorem opening?_cons_normalizeFrom (h : opening? (c :: s) = none) :
    opening? (c :: normalizeFrom (!c.isAlphanum) s) = none := by
  by_contra hne
  obtain ⟨⟨head, r⟩, ho⟩ := Option.ne_none_iff_exists'.1 hne
  have htext := append_of_opening? ho
  have hnone : ∀ t, c :: s ≠ head ++ t := by
    intro t e
    rw [e, opening?_append ho] at h
    cases h
  obtain ⟨x, w, rfl, hletters⟩ := letters_of_opening? ho
  obtain ⟨rfl, hrest⟩ := List.cons.inj htext
  rw [hletters c List.mem_cons_self] at hrest
  obtain ⟨t, ht⟩ := prefix_of_normalizeFrom (fun d hd => hletters d (List.mem_cons_of_mem c hd))
    ⟨r, hrest.symm⟩
  exact hnone t (congrArg (List.cons c) ht.symm)

/-! ### Reading again -/

/-- A text that has been read and spaced is kept when it is read again. -/
theorem normalizeFrom_normalizeFrom (start : Bool) (s : List Char) :
    normalizeFrom start (normalizeFrom start s) = normalizeFrom start s := by
  induction start, s using normalizeFrom.induct with
  | case1 start => simp only [normalizeFrom_nil]
  | case2 start c s head r ho a rest hc ih =>
      cases start with
      | false => cases ho
      | true =>
          -- the call that was spaced is met again, with spaced arguments
          obtain ⟨ho', hc'⟩ := call_of_spaced ho hc (normalizeFrom false rest)
          rw [normalizeFrom_of_call ho hc, normalizeFrom_of_call ho' hc',
            spaceArguments_spaceArguments, ih]
  | case3 start c s head r ho hc =>
      cases start with
      | false => cases ho
      | true => rw [normalizeFrom_of_unclosed ho hc, normalizeFrom_of_unclosed ho hc]
  | case4 start c s ho ih =>
      cases start with
      | false => rw [normalizeFrom_false, normalizeFrom_false, ih]
      | true =>
          -- no name stands here, neither before nor after
          rw [normalizeFrom_of_none ho, normalizeFrom_of_none (opening?_cons_normalizeFrom ho), ih]

/-- Spacing at the head changes nothing, or spaces the call there. -/
theorem normalizeLeading_cases (v : String) :
    normalizeLeading v = v ∨ ∃ head r a rest,
      opening? v.toList = some (head, r) ∧ closing? 0 r = some (a, rest) ∧
        normalizeLeading v = String.ofList (head ++ spaceArguments a ++ ')' :: rest) := by
  unfold normalizeLeading
  split
  · rename_i head r ho
    split
    · rename_i a rest hc
      exact .inr ⟨head, r, a, rest, ho, hc, rfl⟩
    · exact .inl rfl
  · exact .inl rfl

theorem normalizeLeading_of_call {v : String} (ho : opening? v.toList = some (head, r))
    (hc : closing? 0 r = some (a, rest)) :
    normalizeLeading v = String.ofList (head ++ spaceArguments a ++ ')' :: rest) := by
  simp only [normalizeLeading, ho, hc]

theorem normalizeLeading_normalizeLeading (v : String) :
    normalizeLeading (normalizeLeading v) = normalizeLeading v := by
  rcases normalizeLeading_cases v with h | ⟨head, r, a, rest, ho, hc, h⟩
  · rw [h, h]
  · obtain ⟨ho', hc'⟩ := call_of_spaced ho hc rest
    rw [h, normalizeLeading_of_call (by rwa [String.toList_ofList]) hc',
      spaceArguments_spaceArguments]

/-- **Spacing twice is spacing once**, of all the calls in a value and of the call at its head alone,
whether parentheses are closed or not. -/
theorem normalize_idempotent (v : String) :
    normalize (normalize v) = normalize v ∧
      normalizeLeading (normalizeLeading v) = normalizeLeading v := by
  refine ⟨?_, normalizeLeading_normalizeLeading v⟩
  simp only [normalize, String.toList_ofList, normalizeFrom_normalizeFrom]

end UtilityCss.Math
