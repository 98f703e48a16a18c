import Shortener.Common.Run

/-!
# What goes in comes out

A component that takes things in and gives them out, and holds the rest in some order.

* `Run.fifo`: if each step takes in at the end of what is held and gives out from its start,
  then in every run what was given out, followed by what is held, is what was taken in.
-/

namespace Shortener.Common

variable {σ ε β : Type*} {step : σ → ε → Option σ} {ok : σ → ε → Prop} {s t u : σ}
  {es : List ε} {e : ε} {out into : σ → ε → List β}

/-- What the steps of a run emit, `out` at each step. -/
def emitted (step : σ → ε → Option σ) (out : σ → ε → List β) : σ → List ε → List β
  | _, [] => []
  | s, e :: es => out s e ++ (step s e).elim [] fun t => emitted step out t es

theorem Run.emitted_append (h : Run step ok s es t) (e : ε) :
    emitted step out s (es ++ [e]) = emitted step out s es ++ out t e := by
  have hrun := run_iff_foldlM.mp h.always
  clear h
  induction es generalizing s with
  | nil =>
    obtain rfl := Option.some.inj hrun
    show out s e ++ (step s e).elim [] (fun _ => []) = [] ++ out s e
    cases step s e <;> simp
  | cons e' es ih =>
    simp only [List.foldlM_cons, Option.bind_eq_bind, Option.bind_eq_some_iff] at hrun
    obtain ⟨u, hu, hrun⟩ := hrun
    simp only [List.cons_append, emitted, hu, Option.elim_some, ih hrun, List.append_assoc]

/-- **First in, first out.** -/
theorem Run.fifo {Inv : σ → Prop} (held : σ → List β) (h : Run step ok s es t) (hi : Inv s)
    (hinv : ∀ s e t, Inv s → ok s e → step s e = some t → Inv t)
    (hstep : ∀ s e t, Inv s → step s e = some t → out s e ++ held t = held s ++ into s e) :
    emitted step out s es ++ held t = held s ++ emitted step into s es := by
  induction h with
  | nil => simp [emitted]
  | @snoc es t u e h _ hs ih =>
    have hit : Inv t := h.invariant hi hinv
    calc emitted step out s (es ++ [e]) ++ held u
        = emitted step out s es ++ (out t e ++ held u) := by
          rw [h.emitted_append, List.append_assoc]
      _ = (emitted step out s es ++ held t) ++ into t e := by
          rw [hstep t e u hit hs, List.append_assoc]
      _ = held s ++ (emitted step into s es ++ into t e) := by rw [ih, List.append_assoc]
      _ = held s ++ emitted step into s (es ++ [e]) := by rw [h.emitted_append]

end Shortener.Common
