import UtilityCss.Breakpoint.Override
import Mathlib.Algebra.Order.Floor.Semifield
import Mathlib.Data.Rat.Floor

/-!
# Numbers as widths

A number denotes its whole part as a width if it is finite, not negative and not too great
(`BreakpointValue.Denotes`), and one that does not is reported once and changes nothing
(`BreakpointTable.about_overrideAll`). The fraction is cut off before the sign is looked at, so the numbers
between -1 and 0 are taken for 0: they are the only ones that are read in another way
(`BreakpointValue.followsRule_iff`).
-/

namespace UtilityCss

/-! ### Exact values -/

namespace Binary64

/-- The exact value of a finite number. -/
def toRat? : Binary64 → Option ℚ
  | finite negative mantissa scale =>
    let size : ℚ := (mantissa * Nat.pow 2 scale : Nat) / (Nat.pow 2 1074 : Nat)
    some (if negative then -size else size)
  | infinite _ | nan => none

end Binary64

namespace BreakpointValue

variable {v : BreakpointValue} {n p : Nat} {q : ℚ} {negative : Bool}

/-- A value is a number. -/
def IsNumeric : BreakpointValue → Prop
  | pixels _ | fractional _ => True
  | text _ | other _        => False

/-- The exact value of a number that is finite. -/
def number? : BreakpointValue → Option ℚ
  | pixels n          => some n
  | fractional x      => x.toRat?
  | text _ | other _  => none

/-- A number is finite, not negative and below the limit when its fraction is cut off, which leaves `p`. -/
def Denotes (v : BreakpointValue) (p : Nat) : Prop :=
  ∃ q, v.number? = some q ∧ 0 ≤ q ∧ ⌊q⌋₊ = p ∧ p < widthLimit

theorem width?_eq_some_iff :
    width? negative n = some p ↔ (negative = true → n = 0) ∧ n = p ∧ p < widthLimit := by
  have hlimit : 0 < widthLimit := by decide
  unfold width?
  split
  · rename_i hn
    subst hn
    simp only [Option.some.injEq, implies_true, true_and]
    constructor
    · rintro rfl
      exact ⟨rfl, hlimit⟩
    · exact fun h => h.1
  · split
    · rename_i hn h
      constructor
      · nofun
      · rintro ⟨hsign, rfl, hp⟩
        rcases h with h | h
        · exact absurd (hsign h) hn
        · exact absurd hp (Nat.not_lt.2 h)
    · rename_i hn h
      rw [not_or, Nat.not_le] at h
      simp only [Option.some.injEq]
      constructor
      · rintro rfl
        exact ⟨fun hs => absurd hs h.1, rfl, h.2⟩
      · exact fun h => h.2.1

/-- Cut off below, a number between -1 and 0 is of size zero; one further below is not. -/
theorem lt_neg_iff_floor_eq_zero : -1 < -q ↔ ⌊q⌋₊ = 0 := by
  rw [neg_lt_neg_iff, Nat.floor_eq_zero]

/-- What is read as a width is what is greater than -1, finite and not too great. -/
theorem toPixels?_eq_some_iff (h : v.IsNumeric) : v.toPixels? = some p ↔
    ∃ q, v.number? = some q ∧ -1 < q ∧ ⌊q⌋₊ = p ∧ p < widthLimit := by
  cases v with
  | text _ | other _ => cases h
  | pixels n =>
      have hlow : (-1 : ℚ) < n ↔ -1 < n := by exact_mod_cast Iff.rfl
      have hfloor : ⌊(n : ℚ)⌋₊ = n.toNat := by rw [← Int.floor_toNat, Int.floor_intCast]
      simp only [toPixels?, number?, width?_eq_some_iff, Option.some.injEq, exists_eq_left', hlow,
        hfloor, decide_eq_true_eq]
      omega
  | fractional x =>
      cases x with
      | infinite _ | nan => simp [toPixels?, number?, Binary64.floorSize?, Binary64.toRat?]
      | finite negative m e =>
          rw [toPixels?, Binary64.floorSize?, number?, Binary64.toRat?, Option.bind_some,
            width?_eq_some_iff, Binary64.isNegative]
          generalize m * Nat.pow 2 e = a
          generalize Nat.pow 2 1074 = b
          have hsize : (0 : ℚ) ≤ a / b := by positivity
          have hfloor : ⌊(a / b : ℚ)⌋₊ = a / b := Nat.floor_div_eq_div a b
          simp only [Option.some.injEq, exists_eq_left']
          cases negative with
          | false =>
              have hlow : (-1 : ℚ) < a / b := by linarith
              simp [hlow, hfloor]
          | true =>
              have hnone : ⌊-(a / b : ℚ)⌋₊ = 0 := Nat.floor_of_nonpos (by linarith)
              simp only [if_true, forall_const, lt_neg_iff_floor_eq_zero, hfloor, hnone]
              omega

end BreakpointValue

/-! ### Entries of a configuration -/

namespace BreakpointTable

variable {t t' : BreakpointTable} {name other : String} {v w : BreakpointValue}
  {l : List (String × BreakpointValue)}

/-- What the result of configured breakpoints says about a name. -/
def about (name : String) (r : BreakpointTable × List Diagnostic) : Option Nat × List Diagnostic :=
  (r.1.get? name, r.2.filter (·.token = name))

theorem about_override_of_ne (h : name ≠ other) :
    about name (t.override other w) = (t.get? name, []) := by
  unfold override
  cases w.toPixels? with
  | some width => exact congrArg (·, []) (OrderedMap.get?_insert_of_ne h)
  | none =>
      refine congrArg (t.get? name, ·) (List.filter_eq_nil_iff.2 fun d hd => ?_)
      rw [List.mem_singleton.1 hd]
      simpa [rejection, Diagnostic.warning] using h.symm

theorem about_override_congr (h : t.get? name = t'.get? name) :
    about name (t.override name v) = about name (t'.override name v) := by
  unfold override
  cases v.toPixels? with
  | some width =>
      refine congrArg (·, []) ?_
      exact OrderedMap.get?_insert_self.trans OrderedMap.get?_insert_self.symm
  | none =>
      have hrejection : t.rejection name v = t'.rejection name v := by rw [rejection, rejection, h]
      simp only [about, h, hrejection]

theorem about_override_of_none (h : v.toPixels? = none) :
    about name (t.override name v) = (t.get? name, [t.rejection name v]) := by
  simp [override, h, about, rejection, Diagnostic.warning]

theorem about_overrideAll_cons : about name (t.overrideAll ((other, w) :: l)) =
    ((about name ((t.override other w).1.overrideAll l)).1,
      (about name (t.override other w)).2 ++ (about name ((t.override other w).1.overrideAll l)).2) :=
  congrArg (_, ·) (List.filter_append _ _)

theorem about_overrideAll_of_not_mem (h : name ∉ l.map Prod.fst) :
    about name (t.overrideAll l) = (t.get? name, []) := by
  induction l generalizing t with
  | nil => rfl
  | cons e l ih =>
      obtain ⟨other, w⟩ := e
      rw [List.map_cons, List.mem_cons, not_or] at h
      have hother := about_override_of_ne (t := t) (w := w) h.1
      rw [about_overrideAll_cons, ih h.2, hother]
      exact congrArg (·, []) (congrArg Prod.fst hother)

/-- Of breakpoints with different names, each is put over a table as if it were the only one. -/
theorem about_overrideAll (hnodup : (l.map Prod.fst).Nodup) (h : (name, v) ∈ l) :
    about name (t.overrideAll l) = about name (t.override name v) := by
  induction l generalizing t with
  | nil => cases h
  | cons e l ih =>
      obtain ⟨other, w⟩ := e
      rw [List.map_cons, List.nodup_cons] at hnodup
      rw [about_overrideAll_cons]
      rcases List.mem_cons.1 h with h | h
      · cases h
        rw [about_overrideAll_of_not_mem hnodup.1, List.append_nil]
        rfl
      · have hmem : name ∈ l.map Prod.fst := List.mem_map_of_mem h
        have hne : name ≠ other := fun hname => hnodup.1 (hname ▸ hmem)
        have hother := about_override_of_ne (t := t) (w := w) hne
        rw [hother, List.nil_append, ih hnodup.2 h]
        exact about_override_congr (congrArg Prod.fst hother)

theorem about_ofOverrides {overrides : OrderedMap String BreakpointValue}
    (h : overrides.get? name = some v) :
    about name (ofOverrides overrides) = about name (default.override name v) :=
  about_overrideAll overrides.nodup (OrderedMap.mem_entries_of_get? h)

end BreakpointTable

/-! ### The rule -/

namespace BreakpointValue
open BreakpointTable

variable {v : BreakpointValue}

/-- A value is the width that it denotes. If it denotes none, a configuration that gives it to a name
leaves the name what it is by default, and says so in one warning. -/
structure FollowsRule (v : BreakpointValue) : Prop where
  width  : ∀ p, v.toPixels? = some p ↔ v.Denotes p
  report : (∀ p, ¬ v.Denotes p) → ∀ overrides name, overrides.get? name = some v →
    about name (ofOverrides overrides) = (BreakpointTable.default.get? name,
      [BreakpointTable.default.rejection name v])

/-- Widths that are right are reported right. -/
theorem followsRule_of_width (h : ∀ p, v.toPixels? = some p ↔ v.Denotes p) : v.FollowsRule where
  width := h
  report hnone overrides name hname := by
    have hwidth : v.toPixels? = none := Option.eq_none_iff_forall_ne_some.2 fun p hp =>
      hnone p ((h p).1 hp)
    rw [about_ofOverrides hname, about_override_of_none hwidth]

/-- **Numbers follow the rule, but for those between -1 and 0.** A number is a width exactly if it is
finite, not negative and below the limit when its fraction is cut off, and any other is reported once
and leaves the default: that is so for every number that does not lie between -1 and 0, and for none
that does. -/
theorem followsRule_iff (h : v.IsNumeric) :
    v.FollowsRule ↔ ∀ q, v.number? = some q → ¬ (-1 < q ∧ q < 0) := by
  constructor
  · rintro hrule q hq ⟨hlow, hnegative⟩
    have hfloor : ⌊q⌋₊ = 0 := Nat.floor_of_nonpos hnegative.le
    have hzero : v.toPixels? = some 0 := (toPixels?_eq_some_iff h).2 ⟨q, hq, hlow, hfloor, by decide⟩
    obtain ⟨q', hq', hnonneg, -⟩ := (hrule.width 0).1 hzero
    cases hq.symm.trans hq'
    exact absurd hnonneg (not_le.2 hnegative)
  · intro hfree
    refine followsRule_of_width fun p => (toPixels?_eq_some_iff h).trans ?_
    refine exists_congr fun q => and_congr_right fun hq => and_congr_left fun _ => ?_
    constructor
    · exact fun hlow => not_lt.1 fun hnegative => hfree q hq ⟨hlow, hnegative⟩
    · exact fun hnonneg => lt_of_lt_of_le (by norm_num) hnonneg

/-- The last fraction below the limit, zero with a minus sign and the first number below the gap. -/
theorem followsRule_iff_edges :
    (fractional (.ofRatio false 8589934591 2)).FollowsRule ∧ (fractional (.zero true)).FollowsRule ∧
      (pixels (-1)).FollowsRule := by
  have hlast : (fractional (.ofRatio false 8589934591 2)).number? = some (8589934591 / 2) := by
    decide +kernel
  have hzero : (fractional (.zero true)).number? = some 0 := by decide +kernel
  have hfirst : (pixels (-1)).number? = some (-1) := by decide +kernel
  refine ⟨?_, ?_, ?_⟩
  · refine (followsRule_iff (by trivial)).2 fun q hq => ?_
    cases hlast.symm.trans hq
    norm_num
  · refine (followsRule_iff (by trivial)).2 fun q hq => ?_
    cases hzero.symm.trans hq
    norm_num
  · refine (followsRule_iff (by trivial)).2 fun q hq => ?_
    cases hfirst.symm.trans hq
    norm_num

/-- One half below zero. -/
def minusHalf : BreakpointValue := fractional (.ofRatio true 1 2)

theorem not_followsRule_minusHalf :
    minusHalf.number? = some (-1 / 2) ∧ (∀ p, ¬ minusHalf.Denotes p) ∧
      about "md" (ofOverrides (.ofList [("md", minusHalf)])) = (some 0, []) ∧
      ¬ minusHalf.FollowsRule := by
  have hnumber : minusHalf.number? = some (-1 / 2) := by decide +kernel
  have hnone : ∀ p, ¬ minusHalf.Denotes p := by
    rintro p ⟨q, hq, hnonneg, -⟩
    cases hnumber.symm.trans hq
    norm_num at hnonneg
  have hzero : minusHalf.toPixels? = some 0 := by decide +kernel
  refine ⟨hnumber, hnone, by decide +kernel, fun h => hnone 0 ((h.width 0).1 hzero)⟩

end BreakpointValue

end UtilityCss
