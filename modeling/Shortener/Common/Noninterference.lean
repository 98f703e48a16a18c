import Mathlib

/-!
# Runs that answer alike

A server takes timed requests one after the other; each gets an answer and may change the
state. Some requests are visible to an observer. A relation between the states of two servers,
indexed by the time of the next request, is an *unwinding* if a visible request gets the same
answer from both and keeps the relation, and a hidden request, which only the first one sees,
keeps it too.

* `Unwinding.purge`: then the visible requests get the answers they get without the hidden ones.
* `Unwinding.trace_eq`: if nothing is hidden, the two servers answer alike.
-/

namespace Shortener.Common

variable {ρ σ β τ : Type*}

/-- The requests of a run, each with its answer. -/
def trace (step : σ → ρ → σ × β) : List ρ → σ → List (ρ × β)
  | [], _ => []
  | r :: rs, s => (r, (step s r).2) :: trace step rs (step s r).1

/-- The state after a run. -/
def final (step : σ → ρ → σ × β) (rs : List ρ) (s : σ) : σ := rs.foldl (fun s r => (step s r).1) s

variable {step step' : σ → ρ → σ × β} {rs rs' : List ρ} {s s' : σ}

theorem trace_append (rs rs' : List ρ) (s : σ) :
    trace step (rs ++ rs') s = trace step rs s ++ trace step rs' (final step rs s) := by
  induction rs generalizing s with
  | nil => rfl
  | cons r rs ih =>
    rw [List.cons_append, trace, ih, trace, List.cons_append]
    rfl

theorem final_append (rs rs' : List ρ) (s : σ) :
    final step (rs ++ rs') s = final step rs' (final step rs s) := List.foldl_append ..

theorem filter_trace_eq_nil {visible : ρ → Bool} (h : ∀ r ∈ rs, visible r = false) (s : σ) :
    (trace step rs s).filter (fun x => visible x.1) = [] := by
  induction rs generalizing s with
  | nil => rfl
  | cons r rs ih =>
    simp only [trace, List.filter_cons, h r List.mem_cons_self, Bool.false_eq_true, if_false]
    exact ih (fun r' hr' => h r' (List.mem_cons_of_mem _ hr')) _

/-- `R t` relates the states before a request at time `t`. -/
structure Unwinding (step step' : σ → ρ → σ × β) (time : ρ → τ) (before : τ → τ → Prop)
    (visible : ρ → Bool) (R : τ → σ → σ → Prop) : Prop where
  answer : ∀ r s s', visible r = true → R (time r) s s' → (step s r).2 = (step' s' r).2
  seen : ∀ r s s' t, visible r = true → R (time r) s s' → before (time r) t →
    R t (step s r).1 (step' s' r).1
  hidden : ∀ r s s' t, visible r = false → R (time r) s s' → before (time r) t →
    R t (step s r).1 s'

variable {time : ρ → τ} {before : τ → τ → Prop} {visible : ρ → Bool} {R : τ → σ → σ → Prop}

/-- **Hidden requests can be left out.** -/
theorem Unwinding.purge (h : Unwinding step step' time before visible R)
    (htimes : (rs.map time).Pairwise before) (hR : ∀ r ∈ rs, R (time r) s s') :
    (trace step rs s).filter (fun x => visible x.1) = trace step' (rs.filter visible) s' := by
  induction rs generalizing s s' with
  | nil => rfl
  | cons r rs ih =>
    obtain ⟨hbefore, htimes⟩ := List.pairwise_cons.mp htimes
    have hr := hR r List.mem_cons_self
    have hlater : ∀ r' ∈ rs, before (time r) (time r') := fun r' hr' =>
      hbefore _ (List.mem_map_of_mem hr')
    cases hvisible : visible r with
    | true =>
      simp only [trace, List.filter_cons, hvisible, if_true, h.answer r s s' hvisible hr]
      congr 1
      exact ih htimes fun r' hr' => h.seen r s s' _ hvisible hr (hlater r' hr')
    | false =>
      simp only [trace, List.filter_cons, hvisible, Bool.false_eq_true, if_false]
      exact ih htimes fun r' hr' => h.hidden r s s' _ hvisible hr (hlater r' hr')

theorem Unwinding.trace_eq (h : Unwinding step step' time before (fun _ => true) R)
    (htimes : (rs.map time).Pairwise before) (hR : ∀ r ∈ rs, R (time r) s s') :
    trace step rs s = trace step' rs s' := by
  have hpurge := h.purge htimes hR
  rwa [List.filter_eq_self.mpr (fun _ _ => rfl), List.filter_eq_self.mpr (fun _ _ => rfl)] at hpurge

/-- Two runs with the same visible requests give them the same answers. -/
theorem Unwinding.filter_trace_eq (h : Unwinding step step time before visible R)
    (htimes : (rs.map time).Pairwise before) (htimes' : (rs'.map time).Pairwise before)
    (hR : ∀ t, R t s s) (hrs : rs.filter visible = rs'.filter visible) :
    (trace step rs s).filter (fun x => visible x.1) =
      (trace step rs' s).filter fun x => visible x.1 := by
  rw [h.purge htimes fun _ _ => hR _, h.purge htimes' fun _ _ => hR _, hrs]

end Shortener.Common
