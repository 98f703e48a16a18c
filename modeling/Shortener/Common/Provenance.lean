import Shortener.Common.Run

/-!
# Where things come from

The states of a component may hold a thing that some states are a source of. A step may copy
what the state holds already, move it, drop it, or take it from the state as a source.

* `Run.provenance`: then a run to a state that holds the thing has passed through a source.
-/

namespace Shortener.Common

variable {σ ε : Type*} {step : σ → ε → Option σ} {ok : σ → ε → Prop} {s t u : σ}
  {es : List ε} {e : ε} {P Q : σ → Prop}

/-- The run from `s` to `t` has passed through a state with `P`, maybe `s` or `t`. -/
def Passed (step : σ → ε → Option σ) (ok : σ → ε → Prop) (s : σ) (es : List ε) (t : σ)
    (P : σ → Prop) : Prop :=
  ∃ es₁ es₂ u, es = es₁ ++ es₂ ∧ Run step ok s es₁ u ∧ Run step ok u es₂ t ∧ P u

theorem Passed.now (h : Run step ok s es t) (hp : P t) : Passed step ok s es t P :=
  ⟨es, [], t, by simp, h, .nil, hp⟩

theorem Passed.snoc (h : Passed step ok s es t P) (ho : ok t e) (hs : step t e = some u) :
    Passed step ok s (es ++ [e]) u P := by
  obtain ⟨es₁, es₂, v, rfl, h₁, h₂, hp⟩ := h
  exact ⟨es₁, es₂ ++ [e], v, by simp, h₁, h₂.snoc ho hs, hp⟩

theorem Passed.mono (h : Passed step ok s es t P) (hpq : ∀ u, P u → Q u) :
    Passed step ok s es t Q := by
  obtain ⟨es₁, es₂, v, rfl, h₁, h₂, hp⟩ := h
  exact ⟨es₁, es₂, v, rfl, h₁, h₂, hpq v hp⟩

theorem Passed.imp_ok {ok' : σ → ε → Prop} (h : Passed step ok s es t P)
    (hok : ∀ s e, ok s e → ok' s e) : Passed step ok' s es t P := by
  obtain ⟨es₁, es₂, v, rfl, h₁, h₂, hp⟩ := h
  exact ⟨es₁, es₂, v, rfl, h₁.mono hok, h₂.mono hok, hp⟩

/-- What never gets smaller is at most its last value all along. -/
theorem Run.bounded (f : σ → ℕ) (h : Run step ok s es t)
    (hmono : ∀ s e t, step s e = some t → f s ≤ f t) :
    Run step (fun u e => ok u e ∧ f u ≤ f t) s es t := by
  induction h with
  | nil => exact .nil
  | @snoc es t u e _ ho hs ih =>
    have hle := hmono t e u hs
    exact (ih.mono fun _ _ h => ⟨h.1, h.2.trans hle⟩).snoc ⟨ho, hle⟩ hs

/-- **Provenance rule.** `Held` says that a state holds the thing, and `From` that it is a
    source of it. -/
theorem Run.provenance {Inv Held From : σ → Prop} (h : Run step ok s es t) (hi : Inv s)
    (h0 : Held s → From s) (hinv : ∀ s e t, Inv s → ok s e → step s e = some t → Inv t)
    (hstep : ∀ s e t, Inv s → ok s e → step s e = some t → Held t → Held s ∨ From s)
    (hheld : Held t) : Passed step ok s es t From := by
  induction h with
  | nil => exact .now .nil (h0 hheld)
  | @snoc es t u e hr ho hs ih =>
    have hit : Inv t := hr.invariant hi hinv
    rcases hstep t e u hit ho hs hheld with hheld | hfrom
    · exact (ih hheld).snoc ho hs
    · exact (Passed.now hr hfrom).snoc ho hs

end Shortener.Common
