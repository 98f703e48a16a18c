import Shortener.Common.Run

/-!
# Stopping before the startup has completed

The loop of `ProcessTaskQueue` (`Shortener.Shared/Services/TaskQueuingService.cs`, lines 53–78) and
in it the loop of `StartupHealthCheck.WaitUntilReady`
(`Shortener.Shared/Services/StartupHealthCheck.cs`, lines 26–41). The inner loop swallows the
cancellation of `stoppingToken` and tests `StartupCompleted` only; once a token is cancelled, its
delay ends at once.

* `stopsInTime_iff`: the worker stops in time exactly if the startup completes before
  `stoppingToken` is cancelled.
* `waits_forever`: without it, a worker that is in `WaitUntilReady` never leaves.
-/

namespace Shortener.Queue.Startup

open Shortener.Common

/-- What happens to the two tokens and the flag. -/
inductive Signal
  /-- `StartupCompleted = true` -/
  | startupCompleted
  /-- `healthCheck.CancellationTokenSource` is cancelled. -/
  | startupCancelled
  /-- `stoppingToken` is cancelled. -/
  | stopping
  deriving DecidableEq, Repr

/-- How `ExecuteAsync` of `StartupBackgroundService` ends. -/
inductive Outcome
  | succeeds
  | fails
  | neverEnds
  deriving DecidableEq, Repr

/-- What it signals; `StopApplication` cancels `stoppingToken`. -/
def Outcome.signals : Outcome → List Signal
  | succeeds => [.startupCompleted, .startupCancelled]
  | fails => [.stopping]
  | neverEnds => []

/-- Where the worker is. -/
inductive Position
  /-- before `while (!stoppingToken.IsCancellationRequested)` -/
  | outerTest
  /-- before `while (!StartupCompleted)` -/
  | innerTest
  /-- in `Task.Delay` -/
  | delaying
  /-- in `Dequeue` -/
  | dequeuing
  /-- in a work item -/
  | running
  /-- after the loop -/
  | left
  deriving DecidableEq, Repr

/-- What the worker does next. -/
inductive Action
  /-- the next test of a loop -/
  | test
  /-- The five minutes are over. -/
  | elapse
  /-- `OperationCanceledException` -/
  | cancel
  /-- `Dequeue` returns a work item. -/
  | dequeue
  /-- The work item returns or throws. -/
  | finish
  deriving DecidableEq, Repr

/-- A signal is set, or the worker goes on. -/
inductive Event
  | signal (signal : Signal)
  | worker (action : Action)
  deriving DecidableEq, Repr

/-- The signals that are set, and where the worker is. -/
structure State where
  startupCompleted : Bool
  startupCancelled : Bool
  stopping : Bool
  position : Position
  /-- the iterations of `WaitUntilReady` that began after `stoppingToken` was cancelled -/
  iterations : ℕ
  /-- the steps of the worker after that -/
  steps : ℕ
  deriving DecidableEq, Repr

/-- No signal is set, and the worker is at its first test. -/
def State.init : State := ⟨false, false, false, .outerTest, 0, 0⟩

/-- A signal is set. -/
def State.signal (s : State) : Signal → State
  | .startupCompleted => { s with startupCompleted := true }
  | .startupCancelled => { s with startupCancelled := true }
  | .stopping => { s with stopping := true }

/-- Where a step of the worker leads. -/
def State.next (s : State) : Action → Option Position
  | .test =>
    match s.position with
    | .outerTest => some (if s.stopping then .left else .innerTest)
    | .innerTest => some (if s.startupCompleted then .dequeuing else .delaying)
    | _ => none
  | .elapse => if s.position = .delaying then some .innerTest else none
  | .cancel =>
    match s.position with
    -- the linked token
    | .delaying => if s.stopping ∨ s.startupCancelled then some .innerTest else none
    | .dequeuing => if s.stopping then some .outerTest else none
    | _ => none
  | .dequeue => if s.position = .dequeuing ∧ ¬ s.stopping then some .running else none
  | .finish => if s.position = .running then some .outerTest else none

/-- The worker goes to a position; to start a delay is to begin an iteration. -/
def State.goTo (s : State) (position : Position) : State :=
  { s with
    position := position
    iterations := if s.stopping ∧ position = .delaying then s.iterations + 1 else s.iterations
    steps := if s.stopping then s.steps + 1 else s.steps }

/-- A step of the process. -/
def step (s : State) : Event → Option State
  | .signal signal => some (s.signal signal)
  | .worker action => (s.next action).map s.goTo

/-- The signals of a run, in their order. -/
def signals (es : List Event) : List Signal :=
  es.filterMap fun e => match e with
    | .signal signal => some signal
    | .worker _ => none

/-- Once `stoppingToken` is cancelled, `WaitUntilReady` makes at most one more iteration, and the
    worker has left its loop, or has made at most three steps and can make another. -/
def StopsInTime (s : State) : Prop :=
  s.stopping = true → s.iterations ≤ 1 ∧
    (s.position = .left ∨ s.steps ≤ 3 ∧ ∃ action, (step s (.worker action)).isSome)

/-- The startup completes before `stoppingToken` is cancelled. -/
def CompletedFirst (order : List Signal) : Prop :=
  ∀ earlier later, order = earlier ++ .stopping :: later → .startupCompleted ∈ earlier

variable {s t : State} {es : List Event} {order : List Signal} {action : Action}
  {position : Position}

/-! ## The flags are the signals -/

/-- A signal is set already. -/
def State.has (s : State) : Signal → Bool
  | .startupCompleted => s.startupCompleted
  | .startupCancelled => s.startupCancelled
  | .stopping => s.stopping

@[simp] theorem has_goTo (s : State) (position : Position) (signal : Signal) :
    (s.goTo position).has signal = s.has signal := by
  cases signal <;> rfl

theorem has_signal (s : State) (signal signal' : Signal) :
    (s.signal signal).has signal' = true ↔ s.has signal' = true ∨ signal' = signal := by
  cases signal <;> cases signal' <;> simp [State.has, State.signal]

@[simp] theorem signals_append (es es' : List Event) :
    signals (es ++ es') = signals es ++ signals es' := List.filterMap_append ..

@[simp] theorem signals_map (order : List Signal) : signals (order.map .signal) = order := by
  induction order with
  | nil => rfl
  | cons signal order ih => simp [signals]

/-- What a step is: a signal, or a move of the worker. -/
theorem step_cases {e : Event} (h : step s e = some t) :
    (∃ signal, e = .signal signal ∧ t = s.signal signal) ∨
      ∃ action position, e = .worker action ∧ s.next action = some position ∧ t = s.goTo position := by
  cases e with
  | signal signal => exact .inl ⟨signal, rfl, (Option.some.inj h).symm⟩
  | worker action =>
    obtain ⟨position, hnext, rfl⟩ := Option.map_eq_some_iff.mp h
    exact .inr ⟨action, position, rfl, hnext, rfl⟩

theorem has_iff (h : Run step always .init es s) (signal : Signal) :
    s.has signal = true ↔ signal ∈ signals es := by
  induction h with
  | nil => cases signal <;> simp [State.has, State.init, signals]
  | snoc _ _ hs ih =>
    rw [signals_append, List.mem_append, ← ih]
    rcases step_cases hs with ⟨signal', rfl, rfl⟩ | ⟨action, position, rfl, -, rfl⟩
    · rw [has_signal]
      simp [signals]
    · rw [has_goTo]
      simp [signals]

/-! ## After the startup -/

/-- The steps that the worker still has to make when both loops end. -/
def distance : Position → ℕ
  | .delaying => 4
  | .innerTest => 3
  | .dequeuing => 2
  | .running => 2
  | .outerTest => 1
  | .left => 0

/-- With `StartupCompleted` and `stoppingToken` cancelled, every step leads to the end. -/
theorem distance_next (hcompleted : s.startupCompleted = true) (hstopping : s.stopping = true)
    (h : s.next action = some position) :
    distance position + 1 ≤ distance s.position ∧ position ≠ .delaying := by
  cases action <;> cases hposition : s.position <;>
    simp [State.next, hposition, hcompleted, hstopping] at h <;>
    subst h <;> exact ⟨by decide, by decide⟩

theorem exists_next (hstopping : s.stopping = true) (h : s.position ≠ .left) :
    ∃ action, (step s (.worker action)).isSome := by
  cases hposition : s.position with
  | outerTest => exact ⟨.test, by simp [step, State.next, hposition]⟩
  | innerTest => exact ⟨.test, by simp [step, State.next, hposition]⟩
  | delaying => exact ⟨.cancel, by simp [step, State.next, hposition, hstopping]⟩
  | dequeuing => exact ⟨.cancel, by simp [step, State.next, hposition, hstopping]⟩
  | running => exact ⟨.finish, by simp [step, State.next, hposition]⟩
  | left => exact absurd hposition h

/-- If the startup completes first: nothing is counted before `stoppingToken` is cancelled, and
    after it the worker makes no iteration and comes closer to the end. -/
structure Inv (s : State) : Prop where
  before : s.stopping = false → s.iterations = 0 ∧ s.steps = 0
  after : s.stopping = true →
    s.startupCompleted = true ∧ s.iterations = 0 ∧ s.steps + distance s.position ≤ 4

theorem Inv.signal (hi : Inv s) {signal : Signal}
    (h : signal = .stopping → s.startupCompleted = true) : Inv (s.signal signal) := by
  cases signal with
  | startupCompleted =>
    exact ⟨hi.before, fun hstopping => ⟨rfl, (hi.after hstopping).2⟩⟩
  | startupCancelled => exact ⟨hi.before, hi.after⟩
  | stopping =>
    refine ⟨fun hstopping => (Bool.noConfusion hstopping : False).elim, fun _ => ?_⟩
    cases hstopping : s.stopping with
    | true => exact hi.after hstopping
    | false =>
      obtain ⟨hiterations, hsteps⟩ := hi.before hstopping
      refine ⟨h rfl, hiterations, ?_⟩
      show s.steps + distance s.position ≤ 4
      rw [hsteps]
      cases s.position <;> decide

theorem Inv.goTo (hi : Inv s) (h : s.next action = some position) : Inv (s.goTo position) := by
  cases hstopping : s.stopping with
  | false =>
    obtain ⟨hiterations, hsteps⟩ := hi.before hstopping
    constructor
    · simp [State.goTo, hstopping, hiterations, hsteps]
    · intro hstopping'
      exact absurd (hstopping.symm.trans hstopping') Bool.false_ne_true
  | true =>
    obtain ⟨hcompleted, hiterations, hdistance⟩ := hi.after hstopping
    obtain ⟨hcloser, hnot⟩ := distance_next hcompleted hstopping h
    constructor
    · intro hstopping'
      exact absurd (hstopping'.symm.trans hstopping) Bool.false_ne_true
    · intro _
      refine ⟨hcompleted, by simp [State.goTo, hnot, hiterations], ?_⟩
      simp only [State.goTo, hstopping, if_true]
      omega

theorem inv_run (h : Run step always .init es s) (hfirst : CompletedFirst order)
    (hbegins : signals es <+: order) : Inv s := by
  induction h with
  | nil => exact ⟨fun _ => ⟨rfl, rfl⟩, fun hstopping => (Bool.noConfusion hstopping : False).elim⟩
  | @snoc es t u e hr _ hs ih =>
    rw [signals_append] at hbegins
    have hi := ih ((List.prefix_append _ _).trans hbegins)
    rcases step_cases hs with ⟨signal, rfl, rfl⟩ | ⟨action, position, rfl, hnext, rfl⟩
    · apply hi.signal
      rintro rfl
      obtain ⟨later, horder⟩ := hbegins
      have hmem := hfirst (signals es) later (by rw [← horder]; simp [signals])
      exact (has_iff hr .startupCompleted).mpr hmem
    · exact hi.goTo hnext

theorem Inv.stopsInTime (hi : Inv s) : StopsInTime s := by
  intro hstopping
  obtain ⟨-, hiterations, hdistance⟩ := hi.after hstopping
  refine ⟨by omega, ?_⟩
  by_cases hleft : s.position = .left
  · exact .inl hleft
  · refine .inr ⟨?_, exists_next hstopping hleft⟩
    have hpos : 1 ≤ distance s.position := by
      cases hposition : s.position <;> simp_all [distance]
    omega

/-! ## Without it -/

/-- The worker is in `WaitUntilReady`, and the startup has not completed. -/
structure Waiting (s : State) : Prop where
  notCompleted : s.startupCompleted = false
  position : s.position = .innerTest ∨ s.position = .delaying

/-- A worker that waits leaves its loop only after `StartupCompleted` is set. -/
theorem waits_forever (h : Run step (fun _ e => e ≠ .signal .startupCompleted) s es t)
    (hs : Waiting s) : Waiting t := by
  refine h.invariant hs ?_
  intro s e t hs hok hstep
  rcases step_cases hstep with ⟨signal, rfl, rfl⟩ | ⟨action, position, rfl, hnext, rfl⟩
  · cases signal with
    | startupCompleted => exact absurd rfl hok
    | startupCancelled => exact ⟨hs.notCompleted, hs.position⟩
    | stopping => exact ⟨hs.notCompleted, hs.position⟩
  · refine ⟨hs.notCompleted, ?_⟩
    show position = .innerTest ∨ position = .delaying
    rcases hs.position with hposition | hposition <;>
      cases action <;> simp [State.next, hposition, hs.notCompleted] at hnext
    · exact .inr hnext.symm
    · exact .inl hnext.symm
    · exact .inl hnext.2.symm

/-- The worker waits although `stoppingToken` is cancelled. -/
structure Spinning (s : State) : Prop where
  stopping : s.stopping = true
  notCompleted : s.startupCompleted = false
  position : s.position = .delaying

/-- It then makes as many iterations as one likes. -/
theorem Spinning.spins (hs : Spinning s) (n : ℕ) :
    ∃ es t, Run step always s es t ∧ signals es = [] ∧ Spinning t ∧ t.iterations = s.iterations + n := by
  induction n with
  | zero => exact ⟨[], s, .nil, rfl, hs, rfl⟩
  | succ n ih =>
    obtain ⟨es, t, hr, hes, ht, hiterations⟩ := ih
    have hcancel : step t (.worker .cancel) = some (t.goTo .innerTest) := by
      simp [step, State.next, ht.position, ht.stopping]
    have htest : step (t.goTo .innerTest) (.worker .test) =
        some ((t.goTo .innerTest).goTo .delaying) := by
      simp [step, State.next, State.goTo, ht.notCompleted]
    refine ⟨_, _, (hr.snoc trivial hcancel).snoc trivial htest, ?_,
      ⟨ht.stopping, ht.notCompleted, rfl⟩, ?_⟩
    · rw [signals_append, signals_append, hes]
      rfl
    · simp [State.goTo, ht.stopping, hiterations, Nat.add_assoc]

theorem run_signals (s : State) (order : List Signal) :
    Run step always s (order.map .signal) (order.foldl State.signal s) := by
  induction order generalizing s with
  | nil => exact .nil
  | cons signal order ih => exact (Run.single trivial rfl).append (ih (s.signal signal))

theorem position_signals (s : State) (order : List Signal) :
    (order.foldl State.signal s).position = s.position := by
  induction order generalizing s with
  | nil => rfl
  | cons signal order ih =>
    rw [List.foldl_cons, ih]
    cases signal <;> rfl

/-- The worker may be in its first delay when `stoppingToken` is cancelled. -/
theorem exists_spinning {earlier : List Signal} (h : .startupCompleted ∉ earlier) :
    ∃ es s, Run step always .init es s ∧ signals es = earlier ++ [.stopping] ∧ Spinning s := by
  have hstart : Run step always .init [.worker .test, .worker .test]
      ((State.init.goTo .innerTest).goTo .delaying) :=
    run_iff_foldlM.mpr rfl
  have hr := hstart.append (run_signals _ (earlier ++ [.stopping]))
  have hsignals : signals ([.worker .test, .worker .test] ++ (earlier ++ [Signal.stopping]).map .signal) =
      earlier ++ [.stopping] := by
    rw [signals_append, signals_map]
    rfl
  refine ⟨_, _, hr, hsignals, ?_, ?_, ?_⟩
  · exact (has_iff hr .stopping).mpr (by rw [hsignals]; simp)
  · rw [← Bool.not_eq_true]
    exact mt (has_iff hr .startupCompleted).mp (by rw [hsignals]; simp [h])
  · rw [position_signals]
    rfl

/-- Two more iterations are too many. -/
theorem exists_not_stopsInTime {earlier : List Signal} (h : .startupCompleted ∉ earlier) :
    ∃ es s, Run step always .init es s ∧ signals es = earlier ++ [.stopping] ∧ ¬ StopsInTime s := by
  obtain ⟨es, s, hr, hes, hs⟩ := exists_spinning h
  obtain ⟨es', t, hr', hes', ht, hiterations⟩ := hs.spins 2
  refine ⟨_, t, hr.append hr', by rw [signals_append, hes, hes', List.append_nil], ?_⟩
  intro hstops
  have := (hstops ht.stopping).1
  omega

/-- **The worker stops in time exactly if the startup completes first.** -/
theorem stopsInTime_iff (order : List Signal) :
    (∀ es s, Run step always .init es s → signals es <+: order → StopsInTime s) ↔
      CompletedFirst order := by
  constructor
  · rintro h earlier later rfl
    by_contra hnot
    obtain ⟨es, s, hr, hes, hstops⟩ := exists_not_stopsInTime hnot
    exact hstops (h es s hr ⟨later, by rw [hes, List.append_assoc, List.singleton_append]⟩)
  · intro hfirst es s hr hbegins
    exact (inv_run hr hfirst hbegins).stopsInTime

/-- After a startup that failed the worker keeps iterating. -/
theorem failedStartup_spins :
    ¬ ∀ es s, Run step always .init es s → signals es <+: Outcome.fails.signals → StopsInTime s := by
  intro h
  obtain ⟨es, s, hr, hes, hstops⟩ :=
    exists_not_stopsInTime (List.not_mem_nil : Signal.startupCompleted ∉ [])
  exact hstops (h es s hr (by rw [hes]; exact List.prefix_rfl))

end Shortener.Queue.Startup
