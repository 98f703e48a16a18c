import Shortener.Common.Fifo
import Shortener.Common.Simulation

/-!
# Calls that overlap

A component answers calls that may overlap; a call that is lost is never answered. Its history
lists the beginnings of calls and the answers. An order of calls explains the history if the
specification allows the answers in this order, and a call that was answered before another one
began comes before it.

* `Run.linearizes`: if each call takes effect in one step, between its beginning and its answer
  and as the specification permits, then every history has such an order.
* `Linearizes.later`: what holds from one answer on, holds when a later call is answered.
* `Moves.beside`: the same steps for components side by side.
-/

namespace Shortener.Common

variable {κ ρ β σ τ ε : Type*}

/-! ## Histories -/

/-- What is seen of the calls from outside; `k` is the name of a call. -/
inductive Act (κ ρ β : Type*)
  | call (k : κ) (request : ρ)
  | answer (k : κ) (answer : β)
  deriving DecidableEq

/-- The name of the call that begins. -/
def Act.begun : Act κ ρ β → Option κ
  | .call k _ => some k
  | .answer _ _ => none

/-- The calls `l`, each with its request and its answer, explain the history `h`. Calls that are
    not answered may have taken effect or not. -/
structure Linearizes (spec : τ → ρ → β → τ → Prop) (a : τ) (h : List (Act κ ρ β))
    (l : List (κ × ρ × β)) (b : τ) : Prop where
  begun : (h.filterMap Act.begun).Nodup
  nodup : (l.map Prod.fst).Nodup
  called : ∀ k r x, (k, r, x) ∈ l → .call k r ∈ h
  answered : ∀ k x, .answer k x ∈ h → ∃ r, (k, r, x) ∈ l ∧ [.call k r, .answer k x].Sublist h
  order : ∀ k x m r, [.answer k x, .call m r].Sublist h → ∀ y ∈ l, y.1 = m →
    ∃ z, z.1 = k ∧ [z, y].Sublist l
  allowed : Allows spec a (l.map Prod.snd) b

theorem linearizes_nil (spec : τ → ρ → β → τ → Prop) (a : τ) :
    Linearizes spec a ([] : List (Act κ ρ β)) [] a where
  begun := List.nodup_nil
  nodup := List.nodup_nil
  called _ _ _ h := absurd h List.not_mem_nil
  answered _ _ h := absurd h List.not_mem_nil
  order _ _ _ _ _ _ h := absurd h List.not_mem_nil
  allowed := .nil

/-! ## Steps -/

/-- How far a call has come. -/
inductive Status (ρ β : Type*)
  | unused
  | waiting (request : ρ)
  /-- It has taken effect. -/
  | done (request : ρ) (answer : β)
  | ended

section

variable {spec : τ → ρ → β → τ → Prop} {a₀ a b : τ}
  {status status' : κ → Status ρ β} {h acts : List (Act κ ρ β)} {l commits : List (κ × ρ × β)}

/-- The history and the calls that have taken effect show how far each call has come. -/
structure Tracks (status : κ → Status ρ β) (h : List (Act κ ρ β)) (l : List (κ × ρ × β)) :
    Prop where
  unused : ∀ k, status k = .unused → k ∉ h.filterMap Act.begun ∧ k ∉ l.map Prod.fst
  waiting : ∀ k r, status k = .waiting r → .call k r ∈ h ∧ k ∉ l.map Prod.fst
  done : ∀ k r x, status k = .done r x → .call k r ∈ h ∧ (k, r, x) ∈ l

theorem tracks_nil (hunused : ∀ k, status k = .unused) : Tracks status [] [] where
  unused _ _ := ⟨List.not_mem_nil, List.not_mem_nil⟩
  waiting k r hk := by
    rw [hunused] at hk
    cases hk
  done k r x hk := by
    rw [hunused] at hk
    cases hk

/-- Two items in this order, before the last item or up to it. -/
theorem pair_sublist_concat {α : Type*} {l : List α} {x y z : α}
    (hsub : [x, y].Sublist (l ++ [z])) : [x, y].Sublist l ∨ x ∈ l ∧ y = z := by
  obtain ⟨l₁, l₂, heq, h₁, h₂⟩ := List.sublist_append_iff.mp hsub
  rcases List.sublist_singleton.mp h₂ with rfl | rfl
  · rw [List.append_nil] at heq
    exact .inl (heq ▸ h₁)
  · obtain ⟨rfl, hlast⟩ := List.append_inj' (show [x] ++ [y] = l₁ ++ [z] from heq) rfl
    exact .inr ⟨List.singleton_sublist.mp h₁, List.singleton_inj.mp hlast⟩

theorem sublist_concat_of_mem {α : Type*} {l : List α} {x z : α} (hx : x ∈ l) :
    [x, z].Sublist (l ++ [z]) :=
  (List.singleton_sublist.mpr hx).append (List.Sublist.refl [z])

theorem Linearizes.call (hl : Linearizes spec a₀ h l a) {k : κ} {r : ρ}
    (hbegun : k ∉ h.filterMap Act.begun) (hnot : k ∉ l.map Prod.fst) :
    Linearizes spec a₀ (h ++ [.call k r]) l a where
  begun := by
    rw [List.filterMap_append]
    refine hl.begun.append (List.nodup_singleton k) ?_
    rintro k' hk' hk
    obtain rfl := List.mem_singleton.mp hk
    exact hbegun hk'
  nodup := hl.nodup
  called k' r' x hmem := List.mem_append_left _ (hl.called k' r' x hmem)
  answered k' x hmem := by
    have hmem : .answer k' x ∈ h := by simpa using hmem
    obtain ⟨r', hr', hsub⟩ := hl.answered k' x hmem
    exact ⟨r', hr', hsub.trans (List.sublist_append_left ..)⟩
  order k' x m r' hsub y hy hm := by
    rcases pair_sublist_concat hsub with hsub | ⟨-, heq⟩
    · exact hl.order k' x m r' hsub y hy hm
    · -- the call has just begun, and has not taken effect
      obtain ⟨rfl, -⟩ := Act.call.inj heq
      exact absurd (hm ▸ List.mem_map_of_mem hy) hnot
  allowed := hl.allowed

theorem Linearizes.commit (hl : Linearizes spec a₀ h l a) {k : κ} {r : ρ} {x : β}
    (hcall : .call k r ∈ h) (hnot : k ∉ l.map Prod.fst) (hspec : spec a r x b) :
    Linearizes spec a₀ h (l ++ [(k, r, x)]) b where
  begun := hl.begun
  nodup := by
    rw [List.map_append]
    refine hl.nodup.append (List.nodup_singleton k) ?_
    rintro k' hk' hk
    obtain rfl := List.mem_singleton.mp hk
    exact hnot hk'
  called k' r' x' hmem := by
    rcases List.mem_append.mp hmem with hmem | hmem
    · exact hl.called k' r' x' hmem
    · obtain ⟨rfl, heq⟩ := Prod.mk.inj (List.mem_singleton.mp hmem)
      obtain ⟨rfl, -⟩ := Prod.mk.inj heq
      exact hcall
  answered k' x' hmem := by
    obtain ⟨r', hr', hsub⟩ := hl.answered k' x' hmem
    exact ⟨r', List.mem_append_left _ hr', hsub⟩
  order k' x' m r' hsub y hy hm := by
    rcases List.mem_append.mp hy with hy | hy
    · obtain ⟨z, hz, hzy⟩ := hl.order k' x' m r' hsub y hy hm
      exact ⟨z, hz, hzy.trans (List.sublist_append_left ..)⟩
    · -- whatever has been answered has taken effect before
      obtain rfl := List.mem_singleton.mp hy
      have hanswer : .answer k' x' ∈ h := hsub.subset List.mem_cons_self
      obtain ⟨r'', hr'', -⟩ := hl.answered k' x' hanswer
      exact ⟨_, rfl, sublist_concat_of_mem hr''⟩
  allowed := by
    rw [List.map_append]
    exact hl.allowed.snoc hspec

theorem Linearizes.answer (hl : Linearizes spec a₀ h l a) {k : κ} {r : ρ} {x : β}
    (hcall : .call k r ∈ h) (hmem : (k, r, x) ∈ l) :
    Linearizes spec a₀ (h ++ [.answer k x]) l a where
  begun := by
    rw [List.filterMap_append]
    show (h.filterMap Act.begun ++ []).Nodup
    rw [List.append_nil]
    exact hl.begun
  nodup := hl.nodup
  called k' r' x' hmem' := List.mem_append_left _ (hl.called k' r' x' hmem')
  answered k' x' hanswer := by
    rcases List.mem_append.mp hanswer with hanswer | hanswer
    · obtain ⟨r', hr', hsub⟩ := hl.answered k' x' hanswer
      exact ⟨r', hr', hsub.trans (List.sublist_append_left ..)⟩
    · obtain ⟨rfl, rfl⟩ := Act.answer.inj (List.mem_singleton.mp hanswer)
      exact ⟨r, hmem, sublist_concat_of_mem hcall⟩
  order k' x' m r' hsub := by
    rcases pair_sublist_concat hsub with hsub | ⟨-, heq⟩
    · exact hl.order k' x' m r' hsub
    · cases heq
  allowed := hl.allowed

/-! ### Later calls -/

/-- A call begins once. -/
theorem Linearizes.request_eq (hl : Linearizes spec a₀ h l a) {k : κ} {r r' : ρ}
    (hr : .call k r ∈ h) (hr' : .call k r' ∈ h) : r = r' := by
  have hpair : (h.filterMap Act.begun).Pairwise (· ≠ ·) := hl.begun
  rw [List.pairwise_filterMap] at hpair
  have hsymm : Std.Symm fun act act' : Act κ ρ β =>
      ∀ c, act.begun = some c → ∀ c', act'.begun = some c' → c ≠ c' :=
    ⟨fun _ _ hne c hc c' hc' => (hne c' hc' c hc).symm⟩
  by_contra hne
  have hacts : (.call k r : Act κ ρ β) ≠ .call k r' := fun heq => hne (Act.call.inj heq).2
  exact hpair.forall hr hr' hacts k rfl k rfl rfl

/-- Call `c` may take effect after `k` and before `m`. -/
def Between (h : List (Act κ ρ β)) (k m c : κ) : Prop :=
  (∀ x r, ¬ [.answer c x, .call k r].Sublist h) ∧ ∀ x r, ¬ [.answer m x, .call c r].Sublist h

theorem exists_between {α : Type*} {l : List α} {x y : α} (h : [x, y].Sublist l) :
    ∃ before mid after, l = before ++ x :: (mid ++ y :: after) := by
  obtain ⟨l₁, l₂, rfl, hx, hy⟩ := List.cons_sublist_iff.mp h
  obtain ⟨before, u, rfl⟩ := List.append_of_mem hx
  obtain ⟨v, after, rfl⟩ := List.append_of_mem (List.singleton_sublist.mp hy)
  exact ⟨before, u ++ v, after, by simp⟩

theorem not_sublist_swap {α : Type*} {l : List α} {x y : α} (hnodup : l.Nodup)
    (hxy : [x, y].Sublist l) : ¬ [y, x].Sublist l := by
  intro hyx
  obtain ⟨l₁, l₂, rfl, hx, hy⟩ := List.cons_sublist_iff.mp hxy
  have hdisjoint := List.disjoint_of_nodup_append hnodup
  obtain ⟨s₁, s₂, heq, h₁, h₂⟩ := List.sublist_append_iff.mp hyx
  cases s₁ with
  | nil =>
    obtain rfl := heq
    exact hdisjoint hx (h₂.subset (by simp))
  | cons z s₁ =>
    obtain rfl := (List.cons.inj heq).1
    exact hdisjoint (h₁.subset List.mem_cons_self) (List.singleton_sublist.mp hy)

/-- What has taken effect after a call was not answered before that one began. -/
theorem Linearizes.not_before (hl : Linearizes spec a₀ h l a) {y z : κ × ρ × β}
    (hyz : [y, z].Sublist l) (x : β) (r : ρ) : ¬ [.answer z.1 x, .call y.1 r].Sublist h := by
  intro hsub
  obtain ⟨z', hz', hzy⟩ := hl.order z.1 x y.1 r hsub y (hyz.subset (by simp)) rfl
  obtain rfl := List.inj_on_of_nodup_map hl.nodup (hzy.subset (by simp)) (hyz.subset (by simp)) hz'
  exact not_sublist_swap hl.nodup.of_map hyz hzy

/-- **Rule for later calls.** Suppose that every request keeps `P`, that `Q` holds whenever a
    request gets the answer that the call `k` got, and that the requests between `k` and `m` keep
    `Q`. If `m` begins after `k` has been answered, `Q` holds when the specification answers `m`. -/
theorem Linearizes.later (hl : Linearizes spec a₀ h l b) {P Q : τ → Prop} (hP : P a₀)
    (hkeepsP : ∀ r x a b, P a → spec a r x b → P b) {k m : κ} {r r' : ρ} {x y : β}
    (hkeepsQ : ∀ c r x a b, .call c r ∈ h → Between h k m c → Q a → spec a r x b → Q b)
    (hstarts : ∀ a b, P a → spec a r x b → Q b)
    (hsub : [.call k r, .answer k x, .call m r', .answer m y].Sublist h) :
    ∃ a b, Q a ∧ spec a r' y b := by
  have hcall : .call k r ∈ h := hsub.subset (by simp)
  have hcall' : .call m r' ∈ h := hsub.subset (by simp)
  obtain ⟨r₁, hk, -⟩ := hl.answered k x (hsub.subset (by simp))
  obtain rfl := hl.request_eq (hl.called k r₁ x hk) hcall
  obtain ⟨r₂, hm, -⟩ := hl.answered m y (hsub.subset (by simp))
  obtain rfl := hl.request_eq (hl.called m r₂ y hm) hcall'
  have horder : [.answer k x, .call m r₂].Sublist h :=
    List.Sublist.trans (.cons _ (.cons_cons _ (.cons_cons _ (.cons _ .slnil)))) hsub
  obtain ⟨z, hz, hzy⟩ := hl.order k x m r₂ horder (m, r₂, y) hm rfl
  obtain rfl := List.inj_on_of_nodup_map hl.nodup (hzy.subset (by simp)) hk hz
  -- the calls before `k`, between the two, and after `m`
  obtain ⟨before, mid, after, rfl⟩ := exists_between hzy
  have hbetween : ∀ c ∈ mid, Between h k m c.1 := by
    intro c hc
    have hafterK : [(k, r₁, x), c].Sublist ((k, r₁, x) :: (mid ++ (m, r₂, y) :: after)) :=
      .cons_cons _ (List.singleton_sublist.mpr (List.mem_append_left _ hc))
    have hbeforeM : [c, (m, r₂, y)].Sublist (mid ++ (m, r₂, y) :: after) :=
      (List.singleton_sublist.mpr hc).append (.cons_cons _ (List.nil_sublist _))
    exact ⟨hl.not_before (hafterK.trans (List.sublist_append_right ..)),
      hl.not_before ((hbeforeM.cons _).trans (List.sublist_append_right ..))⟩
  have hallowed := hl.allowed
  simp only [List.map_append, List.map_cons] at hallowed
  obtain ⟨a₁, h₁, hallowed⟩ := hallowed.of_append
  obtain ⟨a₂, h₂, hallowed⟩ := hallowed.of_cons
  obtain ⟨a₃, h₃, hallowed⟩ := hallowed.of_append
  obtain ⟨a₄, h₄, -⟩ := hallowed.of_cons
  have hP₁ : P a₁ := h₁.invariant hP fun r x _ => hkeepsP r x
  refine ⟨a₃, a₄, h₃.invariant (hstarts a₁ a₂ hP₁ h₂) ?_, h₄⟩
  intro r x hmem a b
  obtain ⟨⟨c, r', x'⟩, hc, heq⟩ := List.mem_map.mp hmem
  obtain ⟨rfl, rfl⟩ := Prod.mk.inj heq
  have hall : (c, r', x') ∈ before ++ (k, r₁, x) :: (mid ++ (m, r₂, y) :: after) :=
    List.mem_append_right _ (List.mem_cons_of_mem _ (List.mem_append_left _ hc))
  exact hkeepsQ c r' x' a b (hl.called c r' x' hall) (hbetween _ hc)

variable [DecidableEq κ]

/-- What a step does to the calls, what is seen of it, which call takes effect, and the state of
    the specification. -/
inductive Moves (spec : τ → ρ → β → τ → Prop) (status : κ → Status ρ β) (a : τ) :
    List (Act κ ρ β) → List (κ × ρ × β) → (κ → Status ρ β) → τ → Prop
  | quiet : Moves spec status a [] [] status a
  | call {k : κ} {r : ρ} : status k = .unused →
      Moves spec status a [.call k r] [] (Function.update status k (.waiting r)) a
  | commit {k : κ} {r : ρ} {x : β} {b : τ} : status k = .waiting r → spec a r x b →
      Moves spec status a [] [(k, r, x)] (Function.update status k (.done r x)) b
  | answer {k : κ} {r : ρ} {x : β} : status k = .done r x →
      Moves spec status a [.answer k x] [] (Function.update status k .ended) a
  | lose {k : κ} : status k ≠ .unused →
      Moves spec status a [] [] (Function.update status k .ended) a

/-- One call has come further. -/
theorem Tracks.update (ht : Tracks status h l) {k : κ} {value : Status ρ β}
    (hacts : ∀ act ∈ acts, ∀ k', act.begun = some k' → k' = k) (hcommits : ∀ c ∈ commits, c.1 = k)
    (hunused : value ≠ .unused)
    (hwaiting : ∀ r, value = .waiting r →
      .call k r ∈ h ++ acts ∧ k ∉ (l ++ commits).map Prod.fst)
    (hdone : ∀ r x, value = .done r x → .call k r ∈ h ++ acts ∧ (k, r, x) ∈ l ++ commits) :
    Tracks (Function.update status k value) (h ++ acts) (l ++ commits) := by
  have hfresh : ∀ k', k' ≠ k → k' ∉ l.map Prod.fst → k' ∉ (l ++ commits).map Prod.fst := by
    intro k' hne hnot hmem
    rw [List.map_append, List.mem_append] at hmem
    rcases hmem with hmem | hmem
    · exact hnot hmem
    · obtain ⟨c, hc, rfl⟩ := List.mem_map.mp hmem
      exact hne (hcommits c hc)
  constructor
  · intro k' hk'
    by_cases hne : k' = k
    · subst hne
      rw [Function.update_self] at hk'
      exact absurd hk' hunused
    · rw [Function.update_of_ne hne] at hk'
      obtain ⟨hbegun, hnot⟩ := ht.unused k' hk'
      refine ⟨?_, hfresh k' hne hnot⟩
      intro hmem
      obtain ⟨act, hact, hname⟩ := List.mem_filterMap.mp hmem
      rcases List.mem_append.mp hact with hact | hact
      · exact hbegun (List.mem_filterMap.mpr ⟨act, hact, hname⟩)
      · exact hne (hacts act hact k' hname)
  · intro k' r hk'
    by_cases hne : k' = k
    · subst hne
      rw [Function.update_self] at hk'
      exact hwaiting r hk'
    · rw [Function.update_of_ne hne] at hk'
      obtain ⟨hcall, hnot⟩ := ht.waiting k' r hk'
      exact ⟨List.mem_append_left _ hcall, hfresh k' hne hnot⟩
  · intro k' r x hk'
    by_cases hne : k' = k
    · subst hne
      rw [Function.update_self] at hk'
      exact hdone r x hk'
    · rw [Function.update_of_ne hne] at hk'
      obtain ⟨hcall, hmem⟩ := ht.done k' r x hk'
      exact ⟨List.mem_append_left _ hcall, List.mem_append_left _ hmem⟩

/-- **What a step does.** -/
theorem Moves.linearizes (hm : Moves spec status a acts commits status' b)
    (ht : Tracks status h l) (hl : Linearizes spec a₀ h l a) :
    Tracks status' (h ++ acts) (l ++ commits) ∧
      Linearizes spec a₀ (h ++ acts) (l ++ commits) b := by
  cases hm with
  | quiet =>
    rw [List.append_nil, List.append_nil]
    exact ⟨ht, hl⟩
  | @call k r hk =>
    obtain ⟨hbegun, hnot⟩ := ht.unused k hk
    rw [List.append_nil]
    refine ⟨?_, hl.call hbegun hnot⟩
    rw [← List.append_nil l]
    refine ht.update ?_ (by simp) (by simp) ?_ (by simp)
    · rintro act hact k' hname
      obtain rfl := List.mem_singleton.mp hact
      exact (Option.some.inj hname).symm
    · rintro r' heq
      obtain rfl := Status.waiting.inj heq
      exact ⟨List.mem_append_right _ (List.mem_singleton_self _), by simpa using hnot⟩
  | @commit k r x b hk hspec =>
    obtain ⟨hcall, hnot⟩ := ht.waiting k r hk
    rw [List.append_nil]
    refine ⟨?_, hl.commit hcall hnot hspec⟩
    rw [← List.append_nil h]
    refine ht.update (by simp) (by simp) (by simp) (by simp) ?_
    rintro r' x' heq
    obtain ⟨rfl, rfl⟩ := Status.done.inj heq
    rw [List.append_nil]
    exact ⟨hcall, List.mem_append_right _ (List.mem_singleton_self _)⟩
  | @answer k r x hk =>
    obtain ⟨hcall, hmem⟩ := ht.done k r x hk
    rw [List.append_nil]
    refine ⟨?_, hl.answer hcall hmem⟩
    rw [← List.append_nil l]
    refine ht.update ?_ (by simp) (by simp) (by simp) (by simp)
    rintro act hact k' hname
    obtain rfl := List.mem_singleton.mp hact
    cases hname
  | @lose k hk =>
    refine ⟨ht.update (by simp) (by simp) (by simp) (by simp) (by simp), ?_⟩
    rw [List.append_nil, List.append_nil]
    exact hl

/-! ## Runs -/

section

variable {step : σ → ε → Option σ} {ok : σ → ε → Prop} {s t : σ} {es : List ε}
  {acts : σ → ε → List (Act κ ρ β)} {commits : σ → ε → List (κ × ρ × β)}
  {status : σ → κ → Status ρ β} {R : σ → τ → Prop}

/-- **Linearization rule.** `R` relates the states of the component to those of its
    specification. -/
theorem Run.linearizes (h : Run step ok s es t) (hr : R s a)
    (hunused : ∀ k, status s k = .unused)
    (hstep : ∀ s e t a, R s a → ok s e → step s e = some t →
      ∃ b, R t b ∧ Moves spec (status s) a (acts s e) (commits s e) (status t) b) :
    ∃ b, R t b ∧
      Linearizes spec a (emitted step acts s es) (emitted step commits s es) b := by
  suffices hall : ∃ b, R t b ∧
      Tracks (status t) (emitted step acts s es) (emitted step commits s es) ∧
        Linearizes spec a (emitted step acts s es) (emitted step commits s es) b by
    obtain ⟨b, hb, -, hl⟩ := hall
    exact ⟨b, hb, hl⟩
  induction h with
  | nil => exact ⟨a, hr, tracks_nil hunused, linearizes_nil spec a⟩
  | @snoc es t u e h ho hs ih =>
    obtain ⟨b, hb, ht, hl⟩ := ih
    obtain ⟨c, hc, hm⟩ := hstep t e u b hb ho hs
    rw [h.emitted_append, h.emitted_append]
    exact ⟨c, hc, hm.linearizes ht hl⟩

end

end

/-! ## Side by side -/

section

variable {ι : Type*} [DecidableEq ι]

/-- The component that a step names takes it. -/
def stepAt (step : ι → σ → ε → Option σ) (s : ι → σ) (e : ι × ε) : Option (ι → σ) :=
  (step e.1 (s e.1) e.2).map (Function.update s e.1)

/-- Each request is one to the component that it names. -/
def specAt (spec : ι → τ → ρ → β → τ → Prop) (a : ι → τ) (r : ι × ρ) (x : β) (b : ι → τ) : Prop :=
  ∃ c, spec r.1 (a r.1) r.2 x c ∧ b = Function.update a r.1 c

/-- Each party is related to its own abstract state. -/
def relAt (R : σ → τ → Prop) (s : ι → σ) (a : ι → τ) : Prop := ∀ i, R (s i) (a i)

/-- An act of party `i`. -/
def Act.at (i : ι) : Act κ ρ β → Act (ι × κ) (ι × ρ) β
  | .call k r => .call (i, k) (i, r)
  | .answer k x => .answer (i, k) x

/-- The status of a call of party `i`. -/
def Status.at (i : ι) : Status ρ β → Status (ι × ρ) β
  | .unused => .unused
  | .waiting r => .waiting (i, r)
  | .done r x => .done (i, r) x
  | .ended => .ended

/-- What is seen of a step. -/
def actsAt (acts : σ → ε → List (Act κ ρ β)) (s : ι → σ) (e : ι × ε) :
    List (Act (ι × κ) (ι × ρ) β) :=
  (acts (s e.1) e.2).map (Act.at e.1)

/-- What a step of one party commits. -/
def commitsAt (commits : ι → σ → ε → List (κ × ρ × β)) (s : ι → σ) (e : ι × ε) :
    List ((ι × κ) × (ι × ρ) × β) :=
  (commits e.1 (s e.1) e.2).map fun x => ((e.1, x.1), (e.1, x.2.1), x.2.2)

/-- The status of a call of some party. -/
def statusAt (status : σ → κ → Status ρ β) (s : ι → σ) (n : ι × κ) : Status (ι × ρ) β :=
  (status (s n.1) n.2).at n.1

variable {spec : ι → τ → ρ → β → τ → Prop} {acts : σ → ε → List (Act κ ρ β)}
  {commits : ι → σ → ε → List (κ × ρ × β)} {status : σ → κ → Status ρ β} {s : ι → σ} {e : ι × ε}
  {u : σ} {a : ι → τ} {c : τ}

theorem specAt.keeps {i : ι} {p : τ → Prop} (hkeeps : ∀ a r x b, p a → spec i a r x b → p b)
    {b : ι → τ} {r : ι × ρ} {x : β} (h : specAt spec a r x b) (hp : p (a i)) : p (b i) := by
  obtain ⟨c, hspec, rfl⟩ := h
  by_cases hi : i = r.1
  · subst hi
    rw [Function.update_self]
    exact hkeeps _ _ _ _ hp hspec
  · rw [Function.update_of_ne hi]
    exact hp

theorem statusAt_of_eq {i : ι} (hu : status u = status (s i)) :
    statusAt status (Function.update s i u) = statusAt status s := by
  funext n
  obtain ⟨j, m⟩ := n
  unfold statusAt
  by_cases hj : j = i
  · subst hj
    rw [Function.update_self, hu]
  · rw [Function.update_of_ne hj]

variable [DecidableEq κ]

theorem statusAt_update {k : κ} {value : Status ρ β} {i : ι}
    (hu : status u = Function.update (status (s i)) k value) :
    statusAt status (Function.update s i u) =
      Function.update (statusAt status s) (i, k) (value.at i) := by
  funext n
  obtain ⟨j, m⟩ := n
  unfold statusAt
  by_cases hj : j = i
  · subst hj
    rw [Function.update_self, hu]
    by_cases hm : m = k
    · subst hm
      simp
    · simp [Function.update_of_ne, hm]
  · simp [Function.update_of_ne, hj]

/-- A step of one component is a step of all of them. -/
theorem Moves.beside (hm : Moves (spec e.1) (status (s e.1)) (a e.1) (acts (s e.1) e.2)
      (commits e.1 (s e.1) e.2) (status u) c) :
    Moves (specAt spec) (statusAt status s) a (actsAt acts s e) (commitsAt commits s e)
      (statusAt status (Function.update s e.1 u)) (Function.update a e.1 c) := by
  have hat : ∀ k value, status (s e.1) k = value →
      statusAt status s (e.1, k) = value.at e.1 := by
    rintro k value rfl
    rfl
  unfold actsAt commitsAt
  generalize hu : status u = status' at hm
  generalize acts (s e.1) e.2 = seen at hm
  generalize commits e.1 (s e.1) e.2 = effects at hm
  cases hm with
  | quiet =>
    rw [statusAt_of_eq hu, Function.update_eq_self]
    exact .quiet
  | @call k r hk =>
    rw [statusAt_update hu, Function.update_eq_self]
    exact .call (hat k _ hk)
  | @commit k r x c hk hspec =>
    rw [statusAt_update hu]
    exact .commit (hat k _ hk) ⟨c, hspec, rfl⟩
  | @answer k r x hk =>
    rw [statusAt_update hu, Function.update_eq_self]
    exact .answer (hat k _ hk)
  | @lose k hk =>
    rw [statusAt_update hu, Function.update_eq_self]
    refine .lose ?_
    rw [hat k _ rfl]
    cases hstatus : status (s e.1) k with
    | unused => exact absurd hstatus hk
    | _ => simp [Status.at]

variable {step : ι → σ → ε → Option σ} {ok : (ι → σ) → ι × ε → Prop} {t : ι → σ}
  {es : List (ι × ε)} {R : σ → τ → Prop}

/-- **Linearization rule for components side by side.** One order explains what is seen of all
    of them. -/
theorem Run.linearizes_at (h : Run (stepAt step) ok s es t) (hr : relAt R s a)
    (hunused : ∀ i k, status (s i) k = .unused)
    (hstep : ∀ i s e t a, R s a → step i s e = some t →
      ∃ b, R t b ∧ Moves (spec i) (status s) a (acts s e) (commits i s e) (status t) b) :
    ∃ b, relAt R t b ∧
      Linearizes (specAt spec) a (emitted (stepAt step) (actsAt acts) s es)
        (emitted (stepAt step) (commitsAt commits) s es) b := by
  have hstepAt : ∀ s e t a, relAt R s a → ok s e → stepAt step s e = some t →
      ∃ b, relAt R t b ∧ Moves (specAt spec) (statusAt status s) a (actsAt acts s e)
        (commitsAt commits s e) (statusAt status t) b := by
    intro s e t a hr _ hs
    obtain ⟨u, hu, rfl⟩ := Option.map_eq_some_iff.mp hs
    obtain ⟨c, hc, hm⟩ := hstep e.1 (s e.1) e.2 u (a e.1) (hr e.1) hu
    refine ⟨Function.update a e.1 c, ?_, hm.beside⟩
    intro j
    by_cases hj : j = e.1
    · subst hj
      rwa [Function.update_self, Function.update_self]
    · rw [Function.update_of_ne hj, Function.update_of_ne hj]
      exact hr j
  refine h.linearizes hr ?_ hstepAt
  intro n
  unfold statusAt
  rw [hunused]
  rfl

end

end Shortener.Common
