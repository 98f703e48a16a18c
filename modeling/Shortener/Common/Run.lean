import Mathlib

/-!
# Runs of a step function

A component whose parties take atomic steps is a partial function
`step : σ → ε → Option σ`: the event `ε` says which party moves and how every
choice is resolved, and `none` says that the event cannot happen in this state.
A run is a list of events. `Run step ok s es t` also demands that each event
happens in a state where `ok` holds, so that a condition on single steps becomes
a condition on runs.

Results:
* `Run.invariant`: what `step` preserves holds in every state of a run.
* `run_iff_foldlM`, `run_iff_foldlM_guarded`: the runs are the successful executions
  of the event list.
* `Run.safe_iff`: when one step keeps a property exactly if its condition holds,
  a run keeps the property exactly if all its steps meet the condition.
* `Run.everywhere_iff`: the same for a property that a later step may restore, when
  it is asked for in every state of the run.
-/

namespace Shortener.Common

variable {σ ε : Type*} {step : σ → ε → Option σ} {ok ok' : σ → ε → Prop} {s t u : σ}
  {es es' : List ε} {e : ε}

/-- Starting in `s`, the events `es` happen in this order, each in a state that
    satisfies `ok`, and lead to `t`. -/
inductive Run (step : σ → ε → Option σ) (ok : σ → ε → Prop) (s : σ) : List ε → σ → Prop
  | nil : Run step ok s [] s
  | snoc {es : List ε} {t u : σ} {e : ε} :
      Run step ok s es t → ok t e → step t e = some u → Run step ok s (es ++ [e]) u

/-- Every event is allowed. -/
def always (_ : σ) (_ : ε) : Prop := True

theorem Run.mono (h : Run step ok s es t) (hok : ∀ s e, ok s e → ok' s e) :
    Run step ok' s es t := by
  induction h with
  | nil => exact .nil
  | snoc _ ho hs ih => exact ih.snoc (hok _ _ ho) hs

theorem Run.always (h : Run step ok s es t) : Run step Common.always s es t :=
  h.mono fun _ _ _ => trivial

theorem Run.single (ho : ok s e) (hs : step s e = some t) : Run step ok s [e] t :=
  Run.nil.snoc ho hs

/-- The same event again and again, from `f 0` on. -/
theorem Run.replicate {f : ℕ → σ} (h : Run step ok s es (f 0)) (hok : ∀ n, ok (f n) e)
    (hstep : ∀ n, step (f n) e = some (f (n + 1))) (n : ℕ) :
    Run step ok s (es ++ List.replicate n e) (f n) := by
  induction n with
  | zero => simpa using h
  | succ n ih =>
    rw [List.replicate_succ', ← List.append_assoc]
    exact ih.snoc (hok n) (hstep n)

theorem Run.append (h : Run step ok s es t) (h' : Run step ok t es' u) :
    Run step ok s (es ++ es') u := by
  induction h' with
  | nil => simpa using h
  | snoc _ ho hs ih => rw [← List.append_assoc]; exact ih.snoc ho hs

/-- **Invariant rule.** -/
theorem Run.invariant {Inv : σ → Prop} (h : Run step ok s es t) (h0 : Inv s)
    (hstep : ∀ s e t, Inv s → ok s e → step s e = some t → Inv t) : Inv t := by
  induction h with
  | nil => exact h0
  | snoc _ ho hs ih => exact hstep _ _ _ ih ho hs

/-- `step`, when its condition holds. -/
def guarded (step : σ → ε → Option σ) (ok : σ → ε → Prop) [∀ s e, Decidable (ok s e)] (s : σ)
    (e : ε) : Option σ :=
  if ok s e then step s e else none

/-- Executing the events one after the other, each after its condition is checked, is a run. -/
theorem run_iff_foldlM_guarded [∀ s e, Decidable (ok s e)] :
    Run step ok s es t ↔ es.foldlM (guarded step ok) s = some t := by
  constructor
  · intro h
    induction h with
    | nil => rfl
    | snoc _ ho hs ih => simp [List.foldlM_append, ih, hs, ho, guarded]
  · induction es generalizing s with
    | nil => rintro ⟨⟩; exact .nil
    | cons e es ih =>
      intro h
      simp only [List.foldlM_cons, Option.bind_eq_bind, Option.bind_eq_some_iff, guarded,
        Option.ite_none_right_eq_some] at h
      obtain ⟨t', ⟨ho, h1⟩, h2⟩ := h
      exact (Run.single ho h1).append (ih h2)

/-- Executing the events one after the other is a run. -/
theorem run_iff_foldlM : Run step always s es t ↔ es.foldlM step s = some t := by
  classical
  have hstep : guarded step always = step := by
    funext s e
    simp [guarded, always]
  rw [run_iff_foldlM_guarded, hstep]

theorem exists_run (h : (es.foldlM step s).isSome) : ∃ t, Run step always s es t := by
  obtain ⟨t, ht⟩ := Option.isSome_iff_exists.mp h
  exact ⟨t, run_iff_foldlM.mpr ht⟩

/-- A run of one event. -/
theorem Run.of_singleton (h : Run step ok s [e] t) : ok s e ∧ step s e = some t := by
  generalize hes : [e] = es at h
  cases h with
  | nil => cases hes
  | @snoc es t' _ e' h ho hs =>
    obtain ⟨rfl, he⟩ := List.append_inj' (show [] ++ [e] = es ++ [e'] from hes) rfl
    obtain rfl : e = e' := by simpa using he
    obtain rfl : s = t' := Option.some.inj (run_iff_foldlM.mp h.always)
    exact ⟨ho, hs⟩

/-- **Exactness rule.** Let `Inv` be an invariant of all runs. If a step from a
    state with `Inv` leads to `P` exactly when it leaves a state with `P` and
    meets `ok`, then `P` holds after a run exactly when every step of the run
    met `ok`. -/
theorem Run.safe_iff {Inv P : σ → Prop} (hr : Run step Common.always s es t) (hi : Inv s) (hp : P s)
    (hinv : ∀ s e t, Inv s → step s e = some t → Inv t)
    (hstep : ∀ s e t, Inv s → step s e = some t → (P t ↔ P s ∧ ok s e)) :
    P t ↔ Run step ok s es t := by
  induction hr with
  | nil => exact ⟨fun _ => .nil, fun _ => hp⟩
  | @snoc es t u e hr _ hs ih =>
    have hit : Inv t := hr.invariant hi fun s e t h _ h' => hinv s e t h h'
    rw [hstep t e u hit hs, ih]
    constructor
    · rintro ⟨h, ho⟩
      exact h.snoc ho hs
    · intro h
      generalize hes : es ++ [e] = es' at h
      cases h with
      | nil => simp at hes
      | @snoc es₁ t₁ _ e₁ h₁ ho₁ hs₁ =>
        obtain ⟨rfl, he⟩ := List.append_inj' hes rfl
        obtain rfl : e = e₁ := by simpa using he
        -- the same events from the same state pass through the same state
        have ht : t = t₁ := by
          have h2 := run_iff_foldlM.mp hr
          have h3 := run_iff_foldlM.mp h₁.always
          exact Option.some.inj (h2.symm.trans h3)
        subst ht
        exact ⟨h₁, ho₁⟩

/-- **Exactness rule**, everywhere. Let a step from a state with `Inv` and `P` lead to
    `P` exactly when it meets `ok`. Then `P` holds in every state of a run exactly when
    every step of the run met `ok`. -/
theorem Run.everywhere_iff (Inv : σ → Prop) {P : σ → Prop} (hi : Inv s) (hp : P s)
    (hinv : ∀ s e t, Inv s → step s e = some t → Inv t)
    (hstep : ∀ s e t, Inv s → P s → step s e = some t → (P t ↔ ok s e)) :
    Run step (fun s _ => P s) s es t ∧ P t ↔ Run step ok s es t := by
  have hInv : ∀ {ok' : σ → ε → Prop} {es t}, Run step ok' s es t → Inv t := by
    intro ok' es t h
    exact h.invariant hi fun s e t h _ h' => hinv s e t h h'
  constructor
  · intro h
    obtain ⟨h, ht⟩ := h
    induction h with
    | nil => exact .nil
    | snoc h hpt hs ih => exact (ih hpt).snoc ((hstep _ _ _ (hInv h) hpt hs).mp ht) hs
  · intro h
    induction h with
    | nil => exact ⟨.nil, hp⟩
    | snoc h ho hs ih => exact ⟨ih.1.snoc ih.2 hs, (hstep _ _ _ (hInv h) ih.2 hs).mpr ho⟩

end Shortener.Common
