import Shortener.Common.Noninterference

/-!
# Servers and their specifications

A server takes requests one after the other and answers each of them. A specification says
which answers are allowed in a state, and to which states they lead. The server refines it if
some relation between their states holds at the start and is kept by every request, with the
answer of the server.

Servers side by side each take the requests that name them.

* `Simulates.trace`: then the specification allows all that the server answers.
* `answersOf_trace`, `final_beside`: a server side by side with others answers, and ends, as
  it does alone.
-/

namespace Shortener.Common

variable {ρ β σ τ : Type*} {step : σ → ρ → σ × β} {spec : τ → ρ → β → τ → Prop}
  {R : σ → τ → Prop} {s : σ} {a b c : τ} {l l' : List (ρ × β)}

/-- From `a` the specification allows these requests to be answered so, and gets to `b`. -/
inductive Allows (spec : τ → ρ → β → τ → Prop) (a : τ) : List (ρ × β) → τ → Prop
  | nil : Allows spec a [] a
  | snoc {l : List (ρ × β)} {b c : τ} {r : ρ} {answer : β} :
      Allows spec a l b → spec b r answer c → Allows spec a (l ++ [(r, answer)]) c

theorem Allows.single {r : ρ} {answer : β} (h : spec a r answer b) :
    Allows spec a [(r, answer)] b :=
  Allows.nil.snoc h

theorem Allows.append (h : Allows spec a l b) (h' : Allows spec b l' c) :
    Allows spec a (l ++ l') c := by
  induction h' with
  | nil => simpa using h
  | snoc _ hs ih =>
    rw [← List.append_assoc]
    exact ih.snoc hs

/-- What each request keeps holds at the end. -/
theorem Allows.invariant (h : Allows spec a l b) {P : τ → Prop} (hP : P a)
    (hkeeps : ∀ r answer, (r, answer) ∈ l → ∀ a b, P a → spec a r answer b → P b) : P b := by
  induction h with
  | nil => exact hP
  | @snoc l b c r answer _ hs ih =>
    have hb : P b := ih fun r' answer' hmem =>
      hkeeps r' answer' (List.mem_append_left _ hmem)
    exact hkeeps r answer (List.mem_append_right _ (List.mem_singleton_self _)) b c hb hs

theorem Allows.of_append (h : Allows spec a (l ++ l') c) :
    ∃ b, Allows spec a l b ∧ Allows spec b l' c := by
  generalize heq : l ++ l' = whole at h
  induction h generalizing l' with
  | nil =>
    obtain ⟨rfl, rfl⟩ := List.append_eq_nil_iff.mp heq
    exact ⟨a, .nil, .nil⟩
  | @snoc init b c r answer h hs ih =>
    rcases List.eq_nil_or_concat l' with rfl | ⟨l'', last, rfl⟩
    · rw [List.append_nil] at heq
      subst heq
      exact ⟨c, h.snoc hs, .nil⟩
    · rw [List.concat_eq_append, ← List.append_assoc] at heq
      obtain ⟨hinit, hlast⟩ := List.append_inj' heq rfl
      obtain rfl := List.singleton_inj.mp hlast
      obtain ⟨u, hu, hrest⟩ := ih hinit
      rw [List.concat_eq_append]
      exact ⟨u, hu, hrest.snoc hs⟩

theorem Allows.of_cons {r : ρ} {answer : β} (h : Allows spec a ((r, answer) :: l) c) :
    ∃ b, spec a r answer b ∧ Allows spec b l c := by
  obtain ⟨b, hone, hrest⟩ := Allows.of_append (l := [(r, answer)]) h
  refine ⟨b, ?_, hrest⟩
  generalize heq : [(r, answer)] = one at hone
  cases hone with
  | nil => cases heq
  | @snoc init u _ r' answer' hinit hs =>
    obtain ⟨rfl, hlast⟩ := List.append_inj' (show [] ++ [(r, answer)] = init ++ _ from heq) rfl
    obtain ⟨rfl, rfl⟩ := Prod.mk.inj (List.singleton_inj.mp hlast)
    generalize hnil : ([] : List (ρ × β)) = none at hinit
    cases hinit with
    | nil => exact hs
    | snoc => simp at hnil

/-- `R` relates the states of the server to those of its specification. -/
def Simulates (step : σ → ρ → σ × β) (spec : τ → ρ → β → τ → Prop) (R : σ → τ → Prop) : Prop :=
  ∀ s a r, R s a → ∃ b, spec a r (step s r).2 b ∧ R (step s r).1 b

/-- **Refinement rule.** -/
theorem Simulates.trace (h : Simulates step spec R) (hr : R s a) (rs : List ρ) :
    ∃ b, Allows spec a (trace step rs s) b ∧ R (final step rs s) b := by
  induction rs generalizing s a with
  | nil => exact ⟨a, .nil, hr⟩
  | cons r rs ih =>
    obtain ⟨b, hspec, hb⟩ := h s a r hr
    obtain ⟨c, hc, hfinal⟩ := ih hb
    exact ⟨c, (Allows.single hspec).append hc, hfinal⟩

/-! ## Servers side by side -/

section

variable {ι : Type*} [DecidableEq ι]

/-- Components that stand side by side; a request goes to one of them. -/
def beside (step : ι → σ → ρ → σ × β) (s : ι → σ) (r : ι × ρ) : (ι → σ) × β :=
  (Function.update s r.1 (step r.1 (s r.1) r.2).1, (step r.1 (s r.1) r.2).2)

/-- The requests to component `i`. -/
def requestsOf (i : ι) (rs : List (ι × ρ)) : List ρ :=
  rs.filterMap fun r => if r.1 = i then some r.2 else none

/-- The requests to component `i`, with their answers. -/
def answersOf (i : ι) (l : List ((ι × ρ) × β)) : List (ρ × β) :=
  l.filterMap fun x => if x.1.1 = i then some (x.1.2, x.2) else none

theorem mem_answersOf {i : ι} {l : List ((ι × ρ) × β)} {r : ρ} {answer : β} :
    (r, answer) ∈ answersOf i l ↔ ((i, r), answer) ∈ l := by
  simp only [answersOf, List.mem_filterMap, Option.ite_none_right_eq_some, Option.some.injEq,
    Prod.mk.injEq, Prod.exists]
  constructor
  · rintro ⟨_, _, _, hmem, rfl, rfl, rfl⟩
    exact hmem
  · intro hmem
    exact ⟨i, r, answer, hmem, rfl, rfl, rfl⟩

variable {steps : ι → σ → ρ → σ × β} (i : ι) (rs : List (ι × ρ)) (ss : ι → σ)

@[simp] theorem beside_self (r : ρ) :
    (beside steps ss (i, r)).1 i = (steps i (ss i) r).1 := Function.update_self ..

theorem answersOf_trace :
    answersOf i (trace (beside steps) rs ss) = trace (steps i) (requestsOf i rs) (ss i) := by
  induction rs generalizing ss with
  | nil => rfl
  | cons r rs ih =>
    obtain ⟨j, r⟩ := r
    have ih := ih (Function.update ss j (steps j (ss j) r).1)
    by_cases hj : j = i
    · subst hj
      rw [Function.update_self] at ih
      simp only [requestsOf, answersOf, trace, beside, List.filterMap_cons, if_true] at ih ⊢
      rw [ih]
    · rw [Function.update_of_ne (Ne.symm hj)] at ih
      simp only [requestsOf, answersOf, trace, beside, List.filterMap_cons, if_neg hj] at ih ⊢
      exact ih

theorem final_beside :
    final (beside steps) rs ss i = final (steps i) (requestsOf i rs) (ss i) := by
  induction rs generalizing ss with
  | nil => rfl
  | cons r rs ih =>
    obtain ⟨j, r⟩ := r
    have ih := ih (Function.update ss j (steps j (ss j) r).1)
    by_cases hj : j = i
    · subst hj
      rw [Function.update_self] at ih
      simp only [requestsOf, final, List.foldl_cons, beside, List.filterMap_cons, if_true] at ih ⊢
      exact ih
    · rw [Function.update_of_ne (Ne.symm hj)] at ih
      simp only [requestsOf, final, List.foldl_cons, beside, List.filterMap_cons, if_neg hj] at ih ⊢
      exact ih

end

end Shortener.Common
