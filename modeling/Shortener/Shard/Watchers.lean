import Shortener.Common.Run

/-!
# Watchers of children

`OnChildrenChanged` and `RemoveChildrenChangedHandler` of `ZookeeperService`
(`Shortener.Shared/Services/ZookeeperService.cs`, lines 188–237), each under `_childrenLock`, and the
subscriptions of the ZooKeeper client. A new wrapper is added to `_childrenHandlers` before
`SubscribeChildrenChange` is awaited.

* `good_of_returns`: without an exception every key is subscribed.
* `goodCalls_iff`: the calls keep the keys and the subscriptions together exactly if no
  `SubscribeChildrenChange` throws.
-/

namespace Shortener.Shard.Watchers

open Shortener.Common

variable {H : Type}

/-- A `ChildrenChangedHandlerWrapper`: which object it is, and its `Handlers`. -/
structure Wrapper (H : Type) where
  id : ℕ
  handlers : List H
  deriving DecidableEq, Repr

/-- `ZookeeperService`, and what the client holds. -/
structure Service (H : Type) where
  /-- `_childrenHandlers` -/
  childrenHandlers : String → Option (Wrapper H)
  /-- For each path, the wrappers whose `ZkHandler` the client holds. -/
  subscriptions : String → List ℕ
  nextId : ℕ

/-- Nobody has subscribed. -/
def Service.init : Service H := ⟨fun _ => none, fun _ => [], 0⟩

/-- How `SubscribeChildrenChange` ends. Whether a client that throws keeps the handler is not
    known. -/
inductive Subscribe
  | returns
  | throws (keeps : Bool)
  deriving DecidableEq, Repr

/-- The calls of the service. -/
inductive Call (H : Type)
  | onChildrenChanged (parentPath : String) (handler : H) (subscribe : Subscribe)
  | removeChildrenChangedHandler (parentPath : String) (handler : H)
  deriving DecidableEq, Repr

/-- `delegates -= d` removes the last occurrence. -/
def removeLast {α : Type} [DecidableEq α] (d : α) (delegates : List α) : List α :=
  (delegates.reverse.erase d).reverse

/-- `SubscribeChildrenChange`. -/
def Service.subscribe (s : Service H) (path : String) (id : ℕ) : Subscribe → Service H
  | .throws false => s
  | _ => { s with subscriptions := Function.update s.subscriptions path (s.subscriptions path ++ [id]) }

/-- `UnSubscribeChildrenChange`. -/
def Service.unSubscribe (s : Service H) (path : String) (id : ℕ) : Service H :=
  { s with subscriptions := Function.update s.subscriptions path (removeLast id (s.subscriptions path)) }

/-- `_childrenHandlers[path]` is set, or removed. -/
def Service.set (s : Service H) (path : String) (wrapper : Option (Wrapper H)) : Service H :=
  { s with childrenHandlers := Function.update s.childrenHandlers path wrapper }

/-- `OnChildrenChanged`. -/
def Service.onChildrenChanged (s : Service H) (parentPath : String) (handler : H)
    (subscribe : Subscribe) : Service H :=
  match s.childrenHandlers parentPath with
  | none =>
    let newWrapper : Wrapper H := ⟨s.nextId, [handler]⟩
    ({ s with nextId := s.nextId + 1 }.set parentPath (some newWrapper)).subscribe parentPath
      newWrapper.id subscribe
  | some existingWrapper =>
    s.set parentPath (some { existingWrapper with handlers := existingWrapper.handlers ++ [handler] })

/-- `RemoveChildrenChangedHandler`. -/
def Service.removeChildrenChangedHandler [DecidableEq H] (s : Service H) (parentPath : String)
    (handler : H) : Service H :=
  match s.childrenHandlers parentPath with
  | none => s
  | some existingWrapper =>
    let handlers := removeLast handler existingWrapper.handlers
    if handlers ≠ [] then s.set parentPath (some { existingWrapper with handlers := handlers })
    else (s.set parentPath none).unSubscribe parentPath existingWrapper.id

/-- A call runs to its end. -/
def Service.call [DecidableEq H] (s : Service H) : Call H → Service H
  | .onChildrenChanged parentPath handler subscribe => s.onChildrenChanged parentPath handler subscribe
  | .removeChildrenChangedHandler parentPath handler => s.removeChildrenChangedHandler parentPath handler

/-- A call is a step. -/
def step [DecidableEq H] (s : Service H) (call : Call H) : Option (Service H) := some (s.call call)

/-! ## What is claimed of a call -/

/-- The path that a call is about. -/
def Call.parentPath : Call H → String
  | .onChildrenChanged parentPath _ _ => parentPath
  | .removeChildrenChangedHandler parentPath _ => parentPath

/-- The call awaits `SubscribeChildrenChange`, which throws. -/
def Throws (s : Service H) : Call H → Prop
  | .onChildrenChanged parentPath _ subscribe =>
    s.childrenHandlers parentPath = none ∧ subscribe ≠ .returns
  | .removeChildrenChangedHandler _ _ => False

/-- The keys are the subscribed paths, each for its wrapper, which has a handler. -/
structure Subscribed (s : Service H) : Prop where
  subscribed : ∀ path wrapper, s.childrenHandlers path = some wrapper →
    wrapper.id ∈ s.subscriptions path ∧ wrapper.handlers ≠ []
  key : ∀ path, ∀ id ∈ s.subscriptions path,
    ∃ wrapper, s.childrenHandlers path = some wrapper ∧ wrapper.id = id

/-- After the call the keys are subscribed; if it throws, the keys are as before, and a retry
    subscribes again. -/
structure Good [DecidableEq H] (s : Service H) (call : Call H) : Prop where
  subscribed : Subscribed (s.call call)
  unchanged : Throws s call → (s.call call).childrenHandlers = s.childrenHandlers
  retried : Throws s call → (s.call call).childrenHandlers call.parentPath = none

variable {s t : Service H} {call : Call H} {calls : List (Call H)}

/-! ## Calls that do not throw -/

/-- Of a path the client holds the wrapper in `_childrenHandlers`, once, and no other. -/
structure Inv (s : Service H) : Prop where
  subscriptions : ∀ path,
    s.subscriptions path = (s.childrenHandlers path).elim [] fun wrapper => [wrapper.id]
  handlers : ∀ path wrapper, s.childrenHandlers path = some wrapper → wrapper.handlers ≠ []

theorem inv_init : Inv (Service.init : Service H) :=
  ⟨fun _ => rfl, fun _ _ h => by cases h⟩

theorem Inv.subscribed (hi : Inv s) : Subscribed s := by
  refine ⟨?_, ?_⟩
  · intro path wrapper hwrapper
    refine ⟨?_, hi.handlers path wrapper hwrapper⟩
    rw [hi.subscriptions, hwrapper]
    exact List.mem_singleton_self _
  · intro path id hid
    rw [hi.subscriptions] at hid
    cases hwrapper : s.childrenHandlers path with
    | none =>
      rw [hwrapper] at hid
      cases hid
    | some wrapper =>
      rw [hwrapper] at hid
      exact ⟨wrapper, rfl, (List.mem_singleton.mp hid).symm⟩

/-- Changing one path on both sides. -/
theorem Inv.update (hi : Inv s) (path : String) (wrapper : Option (Wrapper H))
    (hhandlers : ∀ w, wrapper = some w → w.handlers ≠ [])
    (hkeys : t.childrenHandlers = Function.update s.childrenHandlers path wrapper)
    (hsubscriptions : t.subscriptions path = wrapper.elim [] fun w => [w.id])
    (hframe : ∀ path' ≠ path, t.subscriptions path' = s.subscriptions path') : Inv t := by
  constructor
  · intro path'
    by_cases hpath : path' = path
    · rw [hpath, hsubscriptions, hkeys, Function.update_self]
    · rw [hframe path' hpath, hkeys, Function.update_of_ne hpath, hi.subscriptions]
  · intro path' w hw
    rw [hkeys] at hw
    by_cases hpath : path' = path
    · rw [hpath, Function.update_self] at hw
      exact hhandlers w hw
    · rw [Function.update_of_ne hpath] at hw
      exact hi.handlers path' w hw

theorem Inv.onChildrenChanged (hi : Inv s) {parentPath : String} {handler : H} {subscribe : Subscribe}
    (h : s.childrenHandlers parentPath = none → subscribe = .returns) :
    Inv (s.onChildrenChanged parentPath handler subscribe) := by
  have hsubscriptions := hi.subscriptions parentPath
  unfold Service.onChildrenChanged
  cases hwrapper : s.childrenHandlers parentPath with
  | none =>
    rw [hwrapper] at hsubscriptions
    obtain rfl := h hwrapper
    refine hi.update parentPath (some ⟨s.nextId, [handler]⟩) ?_ rfl ?_ ?_
    · rintro w ⟨⟩
      exact List.cons_ne_nil _ _
    · simp [Service.subscribe, Service.set, hsubscriptions]
    · intro path' hpath
      simp [Service.subscribe, Service.set, hpath]
  | some existingWrapper =>
    rw [hwrapper] at hsubscriptions
    refine hi.update parentPath (some _) ?_ rfl hsubscriptions fun _ _ => rfl
    rintro w ⟨⟩
    simp

variable [DecidableEq H]

theorem Inv.removeChildrenChangedHandler (hi : Inv s) (parentPath : String) (handler : H) :
    Inv (s.removeChildrenChangedHandler parentPath handler) := by
  have hsubscriptions := hi.subscriptions parentPath
  unfold Service.removeChildrenChangedHandler
  cases hwrapper : s.childrenHandlers parentPath with
  | none => exact hi
  | some existingWrapper =>
    rw [hwrapper] at hsubscriptions
    dsimp only
    split_ifs with hhandlers
    · refine hi.update parentPath (some _) ?_ rfl hsubscriptions fun _ _ => rfl
      rintro w ⟨⟩
      exact hhandlers
    · refine hi.update parentPath none (fun w h => by cases h) rfl ?_ ?_
      · simp [Service.unSubscribe, Service.set, hsubscriptions, removeLast]
      · intro path' hpath
        simp [Service.unSubscribe, Service.set, hpath]

theorem Inv.after_call (hi : Inv s) (h : ¬ Throws s call) : Inv (s.call call) := by
  cases call with
  | onChildrenChanged parentPath handler subscribe =>
    apply hi.onChildrenChanged
    intro hnone
    by_contra hsubscribe
    exact h ⟨hnone, hsubscribe⟩
  | removeChildrenChangedHandler parentPath handler =>
    exact hi.removeChildrenChangedHandler parentPath handler

theorem good_of_returns (hi : Inv s) (h : ¬ Throws s call) : Good s call :=
  ⟨(hi.after_call h).subscribed, fun hthrows => absurd hthrows h, fun hthrows => absurd hthrows h⟩

/-! ## Calls that throw -/

/-- A call that throws leaves its path in `_childrenHandlers`. -/
theorem isSome_of_throws (h : Throws s call) :
    ((s.call call).childrenHandlers call.parentPath).isSome := by
  cases call with
  | onChildrenChanged parentPath handler subscribe =>
    obtain ⟨hnone, -⟩ := h
    cases subscribe with
    | returns => simp [Service.call, Service.onChildrenChanged, hnone, Service.subscribe, Service.set,
        Call.parentPath]
    | throws keeps =>
      cases keeps <;>
        simp [Service.call, Service.onChildrenChanged, hnone, Service.subscribe, Service.set,
          Call.parentPath]
  | removeChildrenChangedHandler parentPath handler => exact absurd h (by simp [Throws])

theorem not_throws_of_good (h : Good s call) : ¬ Throws s call := by
  intro hthrows
  have hsome := isSome_of_throws hthrows
  rw [h.retried hthrows] at hsome
  cases hsome

/-- **The calls are good exactly if none of them throws.** -/
theorem goodCalls_iff (calls : List (Call H)) (s : Service H) :
    Run step Good .init calls s ↔ Run step (fun s call => ¬ Throws s call) .init calls s := by
  constructor
  · intro h
    exact h.mono fun _ _ => not_throws_of_good
  · intro h
    induction h with
    | nil => exact .nil
    | snoc hr hreturns hs ih =>
      have hi := hr.invariant inv_init fun s call t hi hreturns hs => by
        obtain rfl := Option.some.inj hs
        exact hi.after_call hreturns
      exact ih.snoc (good_of_returns hi hreturns) hs

/-- After one exception a retry finds the path in `_childrenHandlers`, and the client is not asked
    again. -/
theorem retry_not_subscribed :
    (∃ s : Service ℕ, Run step always .init [.onChildrenChanged "/shards" 0 (.throws false),
        .onChildrenChanged "/shards" 0 .returns] s ∧
      s.childrenHandlers "/shards" = some ⟨0, [0, 0]⟩ ∧ s.subscriptions "/shards" = []) ∧
    ¬ ∀ (calls : List (Call ℕ)) (s : Service ℕ), Run step always .init calls s →
      Run step Good .init calls s := by
  constructor
  · exact ⟨_, run_iff_foldlM.mpr rfl, by decide, by decide⟩
  · intro h
    have hgood := h [.onChildrenChanged "/shards" 0 (.throws false)] _ (Run.single trivial rfl)
    exact not_throws_of_good hgood.of_singleton.1 ⟨rfl, by decide⟩

end Shortener.Shard.Watchers
