import UtilityCss.Markup.Head

/-!
# Styles behind a head

A head of a document in which no tag and no address of a link can begin (`IsQuiet`) has no part in
where styles are put: whatever it is, the styles are put behind it as they would be without it
(`inlineStyles_append`, `linkStylesheet_append`). So it makes no difference to whether a document is
changed.
-/

namespace UtilityCss.Markup
open Text

variable {c : Char} {head p s : List Char}

/-- No `<`, with which tags begin, and no `h`, with which the address of a link does. -/
def IsQuiet (head : List Char) : Prop := ∀ c ∈ head, c ≠ '<' ∧ c ≠ 'h'

instance (head : List Char) : Decidable (IsQuiet head) :=
  List.decidableBAll (fun c => c ≠ '<' ∧ c ≠ 'h') head

theorem isQuiet_append {s t : String} :
    IsQuiet (s ++ t).toList ↔ IsQuiet s.toList ∧ IsQuiet t.toList := by
  rw [String.toList_append]
  exact List.forall_mem_append

/-- The character `<` has no other case. -/
theorem matchesLower_lt : matchesLower '<' c ↔ c = '<' := by
  constructor
  · intro h
    have hlower : lowerChar c = '<' := by simpa [matchesLower] using h
    have hcapital : ∀ n < 91, 65 ≤ n → Char.ofNat (n + 0x20) ≠ '<' := by decide
    unfold lowerChar at hlower
    split at hlower
    · rename_i hc
      exact absurd hlower (hcapital c.toNat (Nat.lt_succ_of_le hc.2) hc.1)
    · split at hlower
      · exact absurd hlower (by decide)
      · exact hlower
  · rintro rfl
    decide

theorem dropPrefixLower?_lt (hc : c ≠ '<') : dropPrefixLower? ('<' :: p) (c :: s) = none := by
  rw [dropPrefixLower?, if_neg (mt matchesLower_lt.1 hc)]

/-! ### Tags behind a head -/

theorem splitBeforeLower?_append (hq : IsQuiet head) : splitBeforeLower? ('<' :: p) (head ++ s) =
    (splitBeforeLower? ('<' :: p) s).map fun r => (head ++ r.1, r.2) := by
  induction head with
  | nil => simp
  | cons c head ih =>
      obtain ⟨hc, -⟩ := hq c List.mem_cons_self
      rw [List.cons_append, splitBeforeLower?, dropPrefixLower?_lt hc,
        ih fun d hd => hq d (List.mem_cons_of_mem c hd), Option.map_map]
      rfl

theorem cut_styleBlock_append (hq : IsQuiet head) :
    styleBlock.cut (head ++ s) = head ++ styleBlock.cut s := by
  induction head with
  | nil => rfl
  | cons c head ih =>
      obtain ⟨hc, -⟩ := hq c List.mem_cons_self
      have hnone : styleBlock.rest? (c :: (head ++ s)) = none := by
        show (dropPrefixLower? ('<' :: _) _).bind _ = none
        rw [dropPrefixLower?_lt hc]
        rfl
      rw [List.cons_append, Passage.cut_cons_of_none hnone,
        ih fun d hd => hq d (List.mem_cons_of_mem c hd), List.cons_append]

theorem insertInHead?_append (hq : IsQuiet head) (text : String) : insertInHead? text (head ++ s) =
    (insertInHead? text s).map (String.ofList head ++ ·) := by
  have hsplit : splitBeforeLower? headClose (head ++ s) =
      (splitBeforeLower? headClose s).map fun r => (head ++ r.1, r.2) := splitBeforeLower?_append hq
  rw [insertInHead?, insertInHead?, hsplit, Option.map_map, Option.map_map]
  refine congrArg (Option.map · _) (funext fun r => ?_)
  simp [String.ofList_append, String.append_assoc]

/-! ### Addresses behind a head -/

theorem occurs_append (hq : IsQuiet head) : occurs ('h' :: p) (head ++ s) = occurs ('h' :: p) s := by
  induction head with
  | nil => rfl
  | cons c head ih =>
      obtain ⟨-, hc⟩ := hq c List.mem_cons_self
      rw [← ih fun d hd => hq d (List.mem_cons_of_mem c hd)]
      have hne : 'h' ≠ c := fun e => hc e.symm
      simp [occurs, after?, dropPrefix?, hne]

/-! ### Styles behind a head -/

variable {first html : String}

theorem getD_map_append (o : Option String) (html : String) :
    (o.map (first ++ ·)).getD (first ++ html) = first ++ o.getD html := by
  cases o <;> rfl

/-- Blocks of styles are taken out and put in behind a quiet head. -/
theorem inlineStyles_append (hq : IsQuiet first.toList) (html css : String) :
    inlineStyles (first ++ html) css = first ++ inlineStyles html css := by
  rw [inlineStyles, String.toList_append, cut_styleBlock_append hq, insertInHead?_append hq,
    String.ofList_toList, getD_map_append]
  rfl

theorem refersTo_append (hq : IsQuiet first.toList) (html href : String) :
    refersTo (first ++ html) href = refersTo html href := by
  have hhref : ("href=\"" ++ href ++ "\"").toList = 'h' :: ("ref=\"" ++ href ++ "\"").toList := by
    simp
  rw [refersTo, refersTo, hhref, String.toList_append (s := first), occurs_append hq]

/-- Links are looked for and put in behind a quiet head. -/
theorem linkStylesheet_append (hq : IsQuiet first.toList) (html href : String) :
    linkStylesheet (first ++ html) href = first ++ linkStylesheet html href := by
  rw [linkStylesheet, linkStylesheet, refersTo_append hq]
  split
  · rfl
  · rw [String.toList_append, insertInHead?_append hq, String.ofList_toList, getD_map_append]

end UtilityCss.Markup
