import UtilityCss.Proofs.Math.Balance

/-!
# Values that are one call

A value is one call of a math function if its last character closes the parenthesis behind the name at its
head (`IsOneCall`). Then all its parentheses are balanced, and its whole arguments are spaced. A math
function is accepted without a look at the parentheses between the first and the last one
(`isMathFunction_iff`), so one that is accepted is one call exactly if what stands between them is
balanced (`isOneCall_iff_isBalanced`).
-/

namespace UtilityCss.Math
open Text Value

variable {s t a arguments body : List Char} {d : Nat} {name : String}

/-! ### Accepted values -/

theorem isCallOf_iff : isCallOf name s ↔
    ∃ body, s = name.toList ++ '(' :: (body ++ [')']) ∧ body ≠ [] ∧ '\n' ∉ body := by
  have hshape : ∀ body, (dropPrefix? (name.toList ++ ['(']) s).bind (dropSuffix? [')']) = some body ↔
      s = name.toList ++ '(' :: (body ++ [')']) := by
    intro body
    simp [Option.bind_eq_some_iff, dropPrefix?_eq_some_iff, dropSuffix?_eq_some_iff]
  simp only [← hshape, isCallOf]
  cases (dropPrefix? (name.toList ++ ['(']) s).bind (dropSuffix? [')']) with
  | none => simp
  | some body => simp

/-- A math function is a name, a parenthesis, anything on one line and a closing parenthesis. -/
theorem isMathFunction_iff : isMathFunction s ↔ ∃ name ∈ mathFunctions,
    ∃ body, s = name.toList ++ '(' :: (body ++ [')']) ∧ body ≠ [] ∧ '\n' ∉ body := by
  simp only [isMathFunction, List.any_eq_true, isCallOf_iff]

/-! ### One call -/

/-- A text is a call of a math function whose last character closes the parenthesis behind its name. -/
def IsOneCall (s : List Char) : Prop :=
  ∃ name ∈ mathFunctions, ∃ arguments,
    s = name.toList ++ '(' :: (arguments ++ [')']) ∧ IsBalanced arguments

theorem isOneCall_call_iff (hname : name ∈ mathFunctions) :
    IsOneCall (name.toList ++ '(' :: (body ++ [')'])) ↔ IsBalanced body := by
  constructor
  · rintro ⟨name', hname', arguments, htext, harguments⟩
    obtain ⟨-, hbody⟩ := name_unique hname hname' htext
    rwa [List.append_cancel_right hbody]
  · exact fun hbody => ⟨name, hname, body, rfl, hbody⟩

theorem Closes.append {e : Nat} (hs : Closes d s) (ht : Closes e t) : Closes (d + e) (s ++ t) := by
  induction hs with
  | nil => simpa using ht
  | opened _ ih => exact .opened (by rwa [Nat.add_right_comm])
  | closed _ ih =>
      rw [Nat.add_right_comm]
      exact .closed ih
  | other hc _ ih => exact .other hc ih

/-- The parentheses of a call are balanced with those of its arguments. -/
theorem IsBalanced.call (hname : name ∈ mathFunctions) (h : IsBalanced arguments) :
    IsBalanced (name.toList ++ '(' :: (arguments ++ [')'])) := by
  have hnames : ∀ name ∈ mathFunctions, IsBalanced name.toList := by decide
  have hcall : Closes 0 ('(' :: (arguments ++ [')'])) :=
    .opened ((isBalanced_iff_closes.1 h).append (.closed .nil))
  exact isBalanced_iff_closes.2 ((isBalanced_iff_closes.1 (hnames name hname)).append hcall)

/-- The arguments of a value that is one call are spaced, whole. -/
theorem normalizeFrom_call (hname : name ∈ mathFunctions) (h : IsBalanced arguments) :
    normalizeFrom true (name.toList ++ '(' :: (arguments ++ [')'])) =
      name.toList ++ '(' :: (spaceArguments arguments ++ [')']) := by
  have hclosing : closing? 0 (arguments ++ [')']) = some (arguments, []) :=
    closing?_eq_some_iff.2 ⟨h, rfl⟩
  rw [normalizeFrom_of_call (opening?_name hname _) hclosing, normalizeFrom_nil]
  simp

/-- If the last character does not close the call, one before it does, and what is behind that one is
read on its own, or none does, and the value is kept. -/
theorem normalizeFrom_of_not_isBalanced (hname : name ∈ mathFunctions) (h : ¬ IsBalanced body) :
    (∃ arguments rest, IsBalanced arguments ∧ body = arguments ++ ')' :: rest ∧
      normalizeFrom true (name.toList ++ '(' :: (body ++ [')'])) =
        name.toList ++ '(' :: (spaceArguments arguments ++ ')' :: normalizeFrom false (rest ++ [')']))) ∨
    normalizeFrom true (name.toList ++ '(' :: (body ++ [')'])) =
      name.toList ++ '(' :: (body ++ [')']) := by
  cases hclosing : closing? 0 (body ++ [')']) with
  | none => exact .inr (normalizeFrom_of_unclosed (opening?_name hname _) hclosing)
  | some parts =>
      obtain ⟨arguments, rest⟩ := parts
      obtain ⟨harguments, htext⟩ := closing?_eq_some_iff.1 hclosing
      rcases List.eq_nil_or_concat rest with rfl | ⟨rest, c, rfl⟩
      · rw [List.append_cancel_right htext] at h
        exact absurd harguments h
      · rw [List.concat_eq_append, ← List.cons_append, ← List.append_assoc] at htext
        obtain ⟨rfl, hc⟩ := List.append_inj' htext rfl
        cases hc
        refine .inl ⟨arguments, rest, harguments, rfl, ?_⟩
        rw [normalizeFrom_of_call (opening?_name hname _) hclosing]
        simp

/-- **When an accepted math function is one call.** An accepted value is a name, a parenthesis, any text
on one line and a closing parenthesis; its last character closes the parenthesis behind its name exactly
if that text is balanced. Then all parentheses of the value are, and its whole arguments are spaced;
otherwise a parenthesis before the last one closes the call and what is behind it is read on its own, or
none does and the value is kept. -/
theorem isOneCall_iff_isBalanced (value : String) (h : isMathFunction value.toList) :
    ∃ name ∈ mathFunctions, ∃ body, value.toList = name.toList ++ '(' :: (body ++ [')']) ∧
      (IsOneCall value.toList ↔ IsBalanced body) ∧
      (IsBalanced body → IsBalanced value.toList ∧
        (normalize value).toList = name.toList ++ '(' :: (spaceArguments body ++ [')'])) ∧
      (¬ IsBalanced body →
        (∃ arguments rest, IsBalanced arguments ∧ body = arguments ++ ')' :: rest ∧
          (normalize value).toList = name.toList ++
            '(' :: (spaceArguments arguments ++ ')' :: normalizeFrom false (rest ++ [')']))) ∨
        normalize value = value) := by
  obtain ⟨name, hname, body, htext, -, -⟩ := isMathFunction_iff.1 h
  refine ⟨name, hname, body, htext, ?_, fun hbody => ⟨?_, ?_⟩, fun hbody => ?_⟩
  · rw [htext, isOneCall_call_iff hname]
  · rw [htext]
    exact hbody.call hname
  · rw [normalize, String.toList_ofList, htext, normalizeFrom_call hname hbody]
  · refine (normalizeFrom_of_not_isBalanced hname hbody).imp ?_ fun hkept => ?_
    · rintro ⟨arguments, rest, harguments, hrest, hspaced⟩
      refine ⟨arguments, rest, harguments, hrest, ?_⟩
      rw [normalize, String.toList_ofList, htext, hspaced]
    · rw [normalize, htext, hkept, ← htext, String.ofList_toList]

/-- A call with others in it. -/
theorem isOneCall_iff_isBalanced_nested :
    let value := "clamp(1px,(2vw_+min(1em,3px))/2,_9é)"
    isMathFunction value.toList ∧ IsOneCall value.toList ∧
      normalize value = "clamp(1px,(2vw + min(1em,3px)) / 2, 9é)" := by
  intro value
  have h : isMathFunction value.toList := by decide
  have htext : value.toList = "clamp".toList ++
      '(' :: ("1px,(2vw_+min(1em,3px))/2,_9é".toList ++ [')']) := by decide
  obtain ⟨name, hname, body, htext', hcall, hspaced, -⟩ := isOneCall_iff_isBalanced value h
  obtain ⟨rfl, hbody⟩ := name_unique (by decide) hname (htext.symm.trans htext')
  obtain rfl := List.append_cancel_right hbody
  exact ⟨h, hcall.2 (by decide), String.toList_inj.1 ((hspaced (by decide)).2.trans (by decide))⟩

/-- Two groups behind one name are accepted, and so is a parenthesis that does not close. -/
theorem not_isOneCall_groups :
    isMathFunction "calc(1px)+(2px)".toList ∧ ¬ IsOneCall "calc(1px)+(2px)".toList ∧
    isMathFunction "calc((1px)".toList ∧ ¬ IsBalanced "calc((1px)".toList := by
  refine ⟨by decide, fun h => ?_, by decide, by decide⟩
  have hgroups : IsOneCall ("calc".toList ++ '(' :: ("1px)+(2px".toList ++ [')'])) := h
  exact absurd ((isOneCall_call_iff (by decide)).1 hgroups) (by decide)

end UtilityCss.Math
