import UtilityCss.Build.Job

/-!
# Runs side by side

Two computations over a state that may fail are compared by their runs from states that belong
together (`Lockstep`): both fail alike, or both end with values that belong together; and whatever
comes of them, the states they leave belong together again. Such comparisons are put together along
the text of the computations (`Lockstep.bind`), so what a program does to two states is read off what
its steps do.
-/

namespace UtilityCss

/-- One and the same failure twice, or two values that belong together. -/
inductive Together {ε α β : Type} (Q : α → β → Prop) : Except ε α → Except ε β → Prop where
  | ok {x : α} {y : β} (h : Q x y) : Together Q (.ok x) (.ok y)
  | error {e : ε} : Together Q (.error e) (.error e)

variable {ε φ σ α β γ δ : Type}

namespace Together

variable {Q : α → β → Prop} {r : Except ε α} {r' : Except ε β}

theorem refl (r : Except ε α) : Together Eq r r := by
  cases r with
  | ok x => exact .ok rfl
  | error e => exact .error

theorem eq {r r' : Except ε α} (h : Together Eq r r') : r = r' := by
  cases h with
  | ok h => rw [h]
  | error => rfl

/-- What is to be shown of both results is shown of two values and of one failure. -/
@[elab_as_elim]
theorem elim {motive : Except ε α → Except ε β → Prop} (h : Together Q r r')
    (ok : ∀ x y, Q x y → motive (.ok x) (.ok y)) (error : ∀ e, motive (.error e) (.error e)) :
    motive r r' := by
  cases h with
  | ok h => exact ok _ _ h
  | error => exact error _

theorem mapError (h : Together Q r r') (f : ε → φ) : Together Q (r.mapError f) (r'.mapError f) := by
  cases h with
  | ok h => exact .ok h
  | error => exact .error

end Together

/-- From states that belong together as `R` says, runs with the same failure or with values that belong
together as `Q` says, and to states that belong together as `R'` says. -/
def Lockstep (R R' : σ → σ → Prop) (Q : α → β → Prop) (m : ExceptT ε (StateM σ) α)
    (m' : ExceptT ε (StateM σ) β) : Prop :=
  ∀ s s', R s s' → Together Q (m.run s).1 (m'.run s').1 ∧ R' (m.run s).2 (m'.run s').2

theorem run_bind (m : ExceptT ε (StateM σ) α) (f : α → ExceptT ε (StateM σ) β) (s : σ) :
    (m >>= f).run s = match m.run s with
      | (.ok x, t)    => (f x).run t
      | (.error e, t) => (.error e, t) := by
  show (match m.run s with | (x, t) => ExceptT.bindCont f x t) = _
  rcases m.run s with ⟨r, t⟩
  cases r <;> rfl

namespace Lockstep

variable {R R' R'' : σ → σ → Prop} {Q : α → β → Prop} {P : γ → δ → Prop}
  {m : ExceptT ε (StateM σ) α} {m' : ExceptT ε (StateM σ) β}

theorem weaken (hR : ∀ s s', R s s' → R' s s') (h : Lockstep R' R'' Q m m') :
    Lockstep R R'' Q m m' :=
  fun s s' hs => h s s' (hR s s' hs)

theorem pure {x : α} {y : β} (hR : ∀ s s', R s s' → R' s s') (h : Q x y) :
    Lockstep R R' Q (pure x : ExceptT ε (StateM σ) α) (Pure.pure y) :=
  fun s s' hs => ⟨.ok h, hR s s' hs⟩

theorem throw (e : ε) :
    Lockstep R R Q (MonadExcept.throw e : ExceptT ε (StateM σ) α) (MonadExcept.throw e) :=
  fun _ _ hs => ⟨.error, hs⟩

/-- The states themselves are values that belong together. -/
theorem get : Lockstep R R R (MonadState.get : ExceptT ε (StateM σ) σ) MonadState.get :=
  fun _ _ hs => ⟨.ok hs, hs⟩

theorem set {t t' : σ} (ht : R' t t') :
    Lockstep R R' Eq (MonadState.set t : ExceptT ε (StateM σ) PUnit) (MonadState.set t') :=
  fun _ _ _ => ⟨.ok rfl, ht⟩

theorem bind {f : α → ExceptT ε (StateM σ) γ} {g : β → ExceptT ε (StateM σ) δ}
    (h : Lockstep R R' Q m m') (hR : ∀ s s', R' s s' → R'' s s')
    (hf : ∀ x y, Q x y → Lockstep R' R'' P (f x) (g y)) :
    Lockstep R R'' P (m >>= f) (m' >>= g) := by
  intro s s' hs
  obtain ⟨hr, ht⟩ := h s s' hs
  rw [run_bind, run_bind]
  rcases hm : m.run s with ⟨r, t⟩
  rcases hm' : m'.run s' with ⟨r', t'⟩
  rw [hm, hm'] at hr ht
  cases hr with
  | ok hxy => exact hf _ _ hxy t t' ht
  | error => exact ⟨.error, hR t t' ht⟩

/-- The case of one relation throughout. -/
theorem bind_same {f : α → ExceptT ε (StateM σ) γ} {g : β → ExceptT ε (StateM σ) δ}
    (h : Lockstep R R Q m m') (hf : ∀ x y, Q x y → Lockstep R R P (f x) (g y)) :
    Lockstep R R P (m >>= f) (m' >>= g) :=
  h.bind (fun _ _ hs => hs) hf

theorem pure_same {x : α} {y : β} (h : Q x y) :
    Lockstep R R Q (Pure.pure x : ExceptT ε (StateM σ) α) (Pure.pure y) :=
  .pure (fun _ _ hs => hs) h

end Lockstep

end UtilityCss
