import Shortener.Common.Parties
import Shortener.Common.Run

/-!
# The election of a process

`ElectionServiceBase` (`Shortener.BackendShared/Services/ElectionService.cs`): `Initialize`, the
handler of connection events and `DisposeAsync`, each a call that may be suspended at its awaits
while others go on, with `_lock` between them. An await ends with a result or throws; the objects
of `LeaderElectionSupport` are counted through, with what was asked of each.

* `one_candidate`: unless the service is disposed of, every object but `_leaderElection` has been
  stopped, and only that one is listened to.
* `calls_end`: calls end and give `_lock` back, whatever throws.
-/

namespace Shortener.Election

open Shortener.Common

/-! ## State -/

/-- `ElectionEventType`. -/
inductive ElectionEventType
  | start
  | offerStart
  | offerComplete
  | determineStart
  | determineComplete
  | electedStart
  | electedComplete
  | readyStart
  | readyComplete
  | failed
  | stopStart
  | stopComplete
  deriving DecidableEq, Repr

/-- A `LeaderElectionSupport`. -/
structure LeaderElectionSupport where
  /-- how often `_electionListener` is registered -/
  listeners : ℕ
  /-- the calls of `start` -/
  starts : ℕ
  /-- the calls of `stop` that have returned -/
  stops : ℕ
  deriving DecidableEq, Repr

/-- What a call does. -/
inductive Job
  | initializeElection
  | handleDisconnected (isConnected : Bool)
  | dispose
  deriving DecidableEq, Repr

/-- What a call awaits. -/
inductive Stage
  /-- `_lock.WaitAsync` -/
  | waiting
  /-- `CreatePersistent` -/
  | creatingParent
  /-- `OnConnectionStateChanged` -/
  | subscribing
  /-- `CreateLeaderElection` -/
  | creating
  /-- `start` of this object -/
  | starting (e : ℕ)
  /-- `stop` of this object -/
  | stopping (e : ℕ)
  deriving DecidableEq, Repr

/-- A call in progress. -/
structure Task where
  job : Job
  stage : Stage
  deriving DecidableEq, Repr

/-- The fields of the service, the calls in progress, and what ZooKeeper was asked for. -/
structure State where
  initialized : Bool
  /-- `_lock.CurrentCount` -/
  lockCount : ℕ
  lockDisposed : Bool
  leaderElection : Option ℕ
  electionType : ElectionEventType
  /-- how often `_connectionHandler` is registered -/
  subscriptions : ℕ
  supports : List LeaderElectionSupport
  tasks : List Task
  deriving DecidableEq, Repr

/-- The service before `Initialize`. -/
def State.init : State := ⟨false, 1, false, none, .failed, 0, [], []⟩

/-- `IsMaster`, for the answer of `getLeaderHostName`. -/
def State.isMaster (s : State) (electionHostName : String) (leaderHostName : Option String) : Bool :=
  match s.leaderElection with
  | none => false
  | some _ => some electionHostName = leaderHostName

/-! ## Steps -/

/-- What can happen next. -/
inductive Event
  /-- `Initialize` is called. -/
  | initializeElection
  /-- `_connectionHandler` is called. -/
  | connectionStateChanged (isConnected : Bool)
  /-- `DisposeAsync` is called. -/
  | dispose
  /-- `_lock` lets call `i` in. -/
  | enter (i : ℕ)
  /-- What call `i` awaits returns, or throws. -/
  | resume (i : ℕ) (returns : Bool)
  /-- An object tells its listener. -/
  | onElectionEvent (e : ℕ) (eventType : ElectionEventType)
  deriving DecidableEq, Repr

/-- Call `i` goes on to its next await. -/
def State.goto (s : State) (i : ℕ) (task : Task) (stage : Stage) : State :=
  { s with tasks := s.tasks.set i { task with stage := stage } }

/-- `_lock.Release()`, which throws on a lock that is disposed of. -/
def State.release (s : State) : State :=
  if s.lockDisposed then s else { s with lockCount := s.lockCount + 1 }

/-- Call `i` ends, or throws. -/
def State.finish (s : State) (i : ℕ) (task : Task) (returns : Bool) : State :=
  let s := { s with tasks := s.tasks.eraseIdx i }
  match task.job with
  | .initializeElection => { s with initialized := s.initialized || returns }.release
  | .handleDisconnected _ => s.release
  | .dispose => { s with lockDisposed := s.lockDisposed || returns }

/-- `StartElection`, up to its first await. -/
def State.startElection (s : State) (i : ℕ) (task : Task) : State :=
  match s.leaderElection with
  | some _ => s.finish i task true
  | none => s.goto i task .creating

/-- `StopElection`, up to its await. -/
def State.stopElection (s : State) (i : ℕ) (task : Task) : State :=
  match s.leaderElection with
  | none => s.finish i task true
  | some e => s.goto i task (.stopping e)

/-- `Stop` is called. -/
def LeaderElectionSupport.addStop (support : LeaderElectionSupport) : LeaderElectionSupport :=
  { support with stops := support.stops + 1 }

/-- A listener is removed. -/
def LeaderElectionSupport.removeListener (support : LeaderElectionSupport) :
    LeaderElectionSupport :=
  { support with listeners := support.listeners - 1 }

/-- `_leaderElection` is what `CreateLeaderElection` has returned; it is listened to and started. -/
def State.addElection (s : State) : State :=
  { s with
    supports := s.supports ++ [{ listeners := 1, starts := 1, stops := 0 }]
    leaderElection := some s.supports.length }

/-- A call goes on, after its await has returned. -/
def State.proceed (s : State) (i : ℕ) (task : Task) : Option State :=
  match task.stage with
  | .waiting => none
  | .creatingParent => some (s.goto i task .subscribing)
  | .subscribing => some ({ s with subscriptions := s.subscriptions + 1 }.startElection i task)
  | .creating =>
    some (s.addElection.goto i task (.starting s.supports.length))
  | .starting _ => some (s.finish i task true)
  | .stopping e =>
    let s := { s with supports := s.supports.modify e LeaderElectionSupport.addStop }
    match s.leaderElection with
    -- `NullReferenceException`
    | none => some (s.finish i task false)
    | some e' =>
      let supports := s.supports.modify e' LeaderElectionSupport.removeListener
      some ({ s with supports := supports, leaderElection := none }.finish i task true)

/-- A step of the service. -/
def step (s : State) : Event → Option State
  | .initializeElection =>
    if s.initialized ∨ s.lockDisposed then some s
    else some { s with tasks := s.tasks ++ [⟨.initializeElection, .waiting⟩] }
  | .connectionStateChanged isConnected =>
    if s.subscriptions = 0 then none
    else if s.lockDisposed then some s
    else some { s with tasks := s.tasks ++ [⟨.handleDisconnected isConnected, .waiting⟩] }
  | .dispose =>
    let i := s.tasks.length
    let task : Task := ⟨.dispose, .waiting⟩
    some ({ s with tasks := s.tasks ++ [task] }.stopElection i task)
  | .enter i =>
    match s.tasks[i]? with
    | some task =>
      if task.stage ≠ .waiting ∨ s.lockDisposed ∨ s.lockCount = 0 then none
      else
        let s := { s with lockCount := s.lockCount - 1 }
        match task.job with
        | .initializeElection => some (s.goto i task .creatingParent)
        | .handleDisconnected true => some (s.startElection i task)
        | .handleDisconnected false => some (s.stopElection i task)
        | .dispose => none
    | none => none
  | .resume i returns =>
    match s.tasks[i]? with
    | some task =>
      if task.stage = .waiting then none
      else if returns then s.proceed i task
      else some (s.finish i task false)
    | none => none
  | .onElectionEvent e eventType =>
    match s.supports[e]? with
    | some support =>
      if support.listeners = 0 then none else some { s with electionType := eventType }
    | none => none

/-! ## Invariant -/

/-- The call is in the lock. -/
def Stage.inside : Stage → Bool
  | .waiting => false
  | _ => true

/-- What `_leaderElection` is while a call awaits this. -/
def Stage.Fits (leaderElection : Option ℕ) : Stage → Prop
  | .creating => leaderElection = none
  | .starting e => leaderElection = some e
  | .stopping e => leaderElection = some e
  | _ => True

/-- Every object is `_leaderElection`, listened to, or was stopped. -/
structure Objects (s : State) : Prop where
  supports : ∀ e support, s.supports[e]? = some support →
    support = if s.leaderElection = some e then ⟨1, 1, 0⟩ else ⟨0, 1, 1⟩
  current : ∀ e, s.leaderElection = some e → e < s.supports.length

/-- At most one call is in the lock, none disposes of the service, and `_leaderElection` is what
    their stages say. -/
structure Inv (s : State) : Prop extends Objects s where
  disposed : s.lockDisposed = false
  lock : s.lockCount + s.tasks.countP (fun task => task.stage.inside) = 1
  jobs : ∀ task ∈ s.tasks, task.job ≠ .dispose
  stages : ∀ task ∈ s.tasks, task.stage.Fits s.leaderElection

/-- Call `i` is in the lock, and no other. -/
structure Held (s : State) (i : ℕ) (task : Task) : Prop extends Objects s where
  disposed : s.lockDisposed = false
  lock : s.lockCount = 0
  call : s.tasks[i]? = some task
  job : task.job ≠ .dispose
  others : ∀ task' ∈ s.tasks.eraseIdx i, task'.stage = .waiting
  jobs : ∀ task' ∈ s.tasks.eraseIdx i, task'.job ≠ .dispose

theorem inv_init : Inv .init where
  supports e support h := by simp [State.init] at h
  current e h := by cases h
  disposed := rfl
  lock := rfl
  jobs task h := by cases h
  stages task h := by cases h

section

variable {s t : State} {i : ℕ} {task : Task}

theorem countP_waiting {tasks : List Task} (h : ∀ task ∈ tasks, task.stage = .waiting) :
    tasks.countP (fun task => task.stage.inside) = 0 := by
  rw [List.countP_eq_zero]
  intro task htask
  rw [h task htask]
  decide

theorem waiting_of_countP {tasks : List Task}
    (h : tasks.countP (fun task => task.stage.inside) = 0) {task : Task} (htask : task ∈ tasks) :
    task.stage = .waiting := by
  rw [List.countP_eq_zero] at h
  have hnot := h task htask
  cases hstage : task.stage with
  | waiting => rfl
  | _ =>
    rw [hstage] at hnot
    exact absurd rfl hnot

/-- The call in the lock goes on. -/
theorem Held.goto (h : Held s i task) {stage : Stage} (hinside : stage.inside = true)
    (hfits : stage.Fits s.leaderElection) : Inv (s.goto i task stage) where
  supports := h.supports
  current := h.current
  disposed := h.disposed
  lock := by
    show s.lockCount + (s.tasks.set i { task with stage := stage }).countP _ = 1
    rw [(perm_set h.call _).countP_eq, List.countP_cons, countP_waiting h.others, h.lock, hinside]
    rfl
  jobs task' htask' := by
    rcases List.mem_cons.mp ((perm_set h.call _).mem_iff.mp htask') with rfl | htask'
    · exact h.job
    · exact h.jobs task' htask'
  stages task' htask' := by
    rcases List.mem_cons.mp ((perm_set h.call _).mem_iff.mp htask') with rfl | htask'
    · exact hfits
    · rw [h.others task' htask']
      trivial

/-- The call in the lock ends. -/
theorem Held.finish (h : Held s i task) (returns : Bool) : Inv (s.finish i task returns) := by
  have hinv : ∀ initialized, Inv { s with
      initialized := initialized, tasks := s.tasks.eraseIdx i, lockCount := s.lockCount + 1 } := by
    intro initialized
    refine ⟨⟨h.supports, h.current⟩, h.disposed, ?_, h.jobs, ?_⟩
    · show s.lockCount + 1 + (s.tasks.eraseIdx i).countP _ = 1
      rw [countP_waiting h.others, h.lock]
    · intro task' htask'
      rw [h.others task' htask']
      trivial
  unfold State.finish
  cases hjob : task.job with
  | initializeElection =>
    simp only [State.release]
    rw [if_neg (by rw [h.disposed]; decide)]
    exact hinv _
  | handleDisconnected isConnected =>
    simp only [State.release]
    rw [if_neg (by rw [h.disposed]; decide)]
    exact hinv _
  | dispose => exact absurd hjob h.job

theorem Held.startElection (h : Held s i task) : Inv (s.startElection i task) := by
  unfold State.startElection
  split
  · exact h.finish true
  · rename_i hnone
    exact h.goto rfl hnone

theorem Held.stopElection (h : Held s i task) : Inv (s.stopElection i task) := by
  unfold State.stopElection
  split
  · exact h.finish true
  · rename_i e hsome
    exact h.goto rfl hsome

/-- A new object is the only one that is not stopped. -/
theorem Held.addElection (h : Held s i task) (hnone : s.leaderElection = none) :
    Held s.addElection i task where
  supports e support hsupport := by
    replace hsupport : (s.supports ++ [_])[e]? = some support := hsupport
    show support = if some s.supports.length = some e then _ else _
    rcases Nat.lt_trichotomy e s.supports.length with hlt | rfl | hgt
    · rw [List.getElem?_append_left hlt] at hsupport
      have hstopped := h.supports e support hsupport
      rw [hnone, if_neg (by simp)] at hstopped
      rw [if_neg (by simp; omega), hstopped]
    · simp at hsupport
      rw [if_pos rfl, hsupport]
    · rw [List.getElem?_eq_none (by simp; omega)] at hsupport
      cases hsupport
  current e he := by
    obtain rfl := Option.some.inj he
    simp [State.addElection]
  disposed := h.disposed
  lock := h.lock
  call := h.call
  job := h.job
  others := h.others
  jobs := h.jobs

/-- The object that is stopped is `_leaderElection`, until then. -/
theorem Held.stop (h : Held s i task) {e : ℕ} (he : s.leaderElection = some e) :
    Held { s with
        supports := (s.supports.modify e LeaderElectionSupport.addStop).modify e
          LeaderElectionSupport.removeListener
        leaderElection := none } i task where
  supports e' support hsupport := by
    simp only [List.getElem?_modify] at hsupport
    rw [if_neg (by simp)]
    cases hs : s.supports[e']? with
    | none => simp [hs] at hsupport
    | some support' =>
      have hold := h.supports e' support' hs
      rw [he] at hold
      by_cases hsame : e = e'
      · subst hsame
        rw [if_pos rfl] at hold
        subst hold
        simp only [hs, if_true, Option.map_eq_map, Option.map_some, Option.some.injEq] at hsupport
        rw [← hsupport]
        rfl
      · rw [if_neg (by simpa using hsame)] at hold
        simp only [hs, if_neg hsame, Option.map_eq_map, Option.map_some, Option.some.injEq] at hsupport
        rw [← hold, ← hsupport]
  current e' he' := by cases he'
  disposed := h.disposed
  lock := h.lock
  call := h.call
  job := h.job
  others := h.others
  jobs := h.jobs

/-- The call whose await ends is the one in the lock. -/
theorem Inv.held (h : Inv s) (hcall : s.tasks[i]? = some task) (hinside : task.stage ≠ .waiting) :
    Held s i task := by
  have hlock := h.lock
  have hin : task.stage.inside = true := by
    cases hstage : task.stage with
    | waiting => exact absurd hstage hinside
    | _ => rfl
  rw [(perm_eraseIdx hcall).countP_eq, List.countP_cons, hin] at hlock
  refine ⟨h.toObjects, h.disposed, by simp at hlock; omega, hcall,
    h.jobs task (List.mem_of_getElem? hcall), ?_, ?_⟩
  · intro task' htask'
    exact waiting_of_countP (by simp at hlock; omega) htask'
  · intro task' htask'
    exact h.jobs task' (List.mem_of_mem_eraseIdx htask')

/-- A call that is let in is alone in the lock. -/
theorem Inv.enter (h : Inv s) (hcall : s.tasks[i]? = some task) (hcount : s.lockCount ≠ 0) :
    Held { s with lockCount := s.lockCount - 1 } i task := by
  have hlock := h.lock
  refine ⟨⟨h.supports, h.current⟩, h.disposed, ?_, hcall, h.jobs task (List.mem_of_getElem? hcall),
    ?_, ?_⟩
  · show s.lockCount - 1 = 0
    omega
  · have hnobody : s.tasks.countP (fun task => task.stage.inside) = 0 := by omega
    intro task' htask'
    exact waiting_of_countP hnobody (List.mem_of_mem_eraseIdx htask')
  · intro task' htask'
    exact h.jobs task' (List.mem_of_mem_eraseIdx htask')

theorem Inv.proceed (h : Inv s) (hcall : s.tasks[i]? = some task)
    (hproceed : s.proceed i task = some t) : Inv t := by
  have hfits := h.stages task (List.mem_of_getElem? hcall)
  have hheld : task.stage ≠ .waiting → Held s i task := h.held hcall
  unfold State.proceed at hproceed
  cases hstage : task.stage with
  | waiting => simp [hstage] at hproceed
  | creatingParent =>
    simp only [hstage, Option.some.injEq] at hproceed
    rw [← hproceed]
    exact (hheld (by simp [hstage])).goto rfl trivial
  | subscribing =>
    simp only [hstage, Option.some.injEq] at hproceed
    have hheld := hheld (by simp [hstage])
    have hsubscribed : Held { s with subscriptions := s.subscriptions + 1 } i task :=
      ⟨⟨hheld.supports, hheld.current⟩, hheld.disposed, hheld.lock, hheld.call, hheld.job,
        hheld.others, hheld.jobs⟩
    rw [← hproceed]
    exact hsubscribed.startElection
  | creating =>
    simp only [hstage, Option.some.injEq] at hproceed
    rw [hstage] at hfits
    rw [← hproceed]
    exact ((hheld (by simp [hstage])).addElection hfits).goto rfl rfl
  | starting e =>
    simp only [hstage, Option.some.injEq] at hproceed
    rw [← hproceed]
    exact (hheld (by simp [hstage])).finish true
  | stopping e =>
    rw [hstage] at hfits
    replace hfits : s.leaderElection = some e := hfits
    simp only [hstage, hfits, Option.some.injEq] at hproceed
    rw [← hproceed]
    exact ((hheld (by simp [hstage])).stop hfits).finish true

/-- A new call waits for the lock. -/
theorem Inv.call (h : Inv s) {job : Job} (hjob : job ≠ .dispose) :
    Inv { s with tasks := s.tasks ++ [⟨job, .waiting⟩] } where
  supports := h.supports
  current := h.current
  disposed := h.disposed
  lock := by
    have hlock := h.lock
    simpa [List.countP_append, Stage.inside] using hlock
  jobs task htask := by
    rcases List.mem_append.mp htask with htask | htask
    · exact h.jobs task htask
    · obtain rfl := List.mem_singleton.mp htask
      exact hjob
  stages task htask := by
    rcases List.mem_append.mp htask with htask | htask
    · exact h.stages task htask
    · obtain rfl := List.mem_singleton.mp htask
      trivial

theorem Inv.step {e : Event} (h : Inv s) (he : e ≠ .dispose) (hstep : step s e = some t) :
    Inv t := by
  cases e with
  | initializeElection =>
    simp only [Election.step] at hstep
    split_ifs at hstep
    · obtain rfl := Option.some.inj hstep
      exact h
    · obtain rfl := Option.some.inj hstep
      exact h.call (by simp)
  | connectionStateChanged isConnected =>
    simp only [Election.step] at hstep
    split_ifs at hstep
    · obtain rfl := Option.some.inj hstep
      exact h
    · obtain rfl := Option.some.inj hstep
      exact h.call (by simp)
  | dispose => exact absurd rfl he
  | enter i =>
    simp only [Election.step] at hstep
    split at hstep
    · rename_i task hcall
      split_ifs at hstep with hwaits
      push Not at hwaits
      have hheld := h.enter hcall hwaits.2.2
      split at hstep
      · obtain rfl := Option.some.inj hstep
        exact hheld.goto rfl trivial
      · obtain rfl := Option.some.inj hstep
        exact hheld.startElection
      · obtain rfl := Option.some.inj hstep
        exact hheld.stopElection
      · cases hstep
    · cases hstep
  | resume i returns =>
    simp only [Election.step] at hstep
    split at hstep
    · rename_i task hcall
      split_ifs at hstep with hwaiting
      · exact h.proceed hcall hstep
      · obtain rfl := Option.some.inj hstep
        exact (h.held hcall hwaiting).finish false
    · cases hstep
  | onElectionEvent e eventType =>
    simp only [Election.step] at hstep
    split at hstep
    · split_ifs at hstep
      obtain rfl := Option.some.inj hstep
      exact ⟨⟨h.supports, h.current⟩, h.disposed, h.lock, h.jobs, h.stages⟩
    · cases hstep

/-- The service is not disposed of. -/
def InUse (_ : State) (e : Event) : Prop := e ≠ .dispose

theorem inv_run {es : List Event} (h : Run step InUse .init es s) : Inv s :=
  h.invariant inv_init fun _ _ _ hi he hstep => hi.step he hstep

/-- **At most one candidate.** However the calls interleave and whatever throws: each object that
    was ever made was started once; it is `_leaderElection`, not stopped yet and listened to, or
    it has been stopped once and nobody listens to it. Events come from `_leaderElection` only,
    and at most one call is in the lock. -/
theorem one_candidate {es : List Event} (h : Run step InUse .init es s) :
    (∀ e support, s.supports[e]? = some support → support.starts = 1 ∧
      (s.leaderElection = some e ∧ support.stops = 0 ∧ support.listeners = 1 ∨
        s.leaderElection ≠ some e ∧ support.stops = 1 ∧ support.listeners = 0)) ∧
    (∀ e eventType t, step s (.onElectionEvent e eventType) = some t →
      s.leaderElection = some e) ∧
    s.tasks.countP (fun task => task.stage.inside) ≤ 1 := by
  have hi := inv_run h
  refine ⟨?_, ?_, ?_⟩
  · intro e support hsupport
    have hsupport := hi.supports e support hsupport
    split_ifs at hsupport with hcurrent
    · subst hsupport
      exact ⟨rfl, .inl ⟨hcurrent, rfl, rfl⟩⟩
    · subst hsupport
      exact ⟨rfl, .inr ⟨hcurrent, rfl, rfl⟩⟩
  · intro e eventType t hstep
    simp only [step] at hstep
    split at hstep
    · rename_i support hsupport
      have hsupport := hi.supports e support hsupport
      split_ifs at hsupport with hcurrent
      · exact hcurrent
      · simp [hsupport] at hstep
    · cases hstep
  · have hlock := hi.lock
    omega

/-- The connection is lost and comes back, but `stop` throws, so that the second election starts
    only after the next loss. -/
def twoElections : List Event :=
  [.initializeElection, .enter 0, .resume 0 true, .resume 0 true, .resume 0 true,
    .connectionStateChanged false, .resume 0 true, .enter 0, .resume 0 false,
    .connectionStateChanged true, .enter 0, .connectionStateChanged false, .enter 0,
    .resume 0 true, .connectionStateChanged true, .enter 0, .resume 0 true]

/-- A second election has been created, and the first one has been stopped. -/
def afterTwoElections : State where
  initialized := true
  lockCount := 0
  lockDisposed := false
  leaderElection := some 1
  electionType := .failed
  subscriptions := 1
  supports := [⟨0, 1, 1⟩, ⟨1, 1, 0⟩]
  tasks := [⟨.handleDisconnected true, .starting 1⟩]

instance : ∀ s e, Decidable (InUse s e) := fun _ e => inferInstanceAs (Decidable (e ≠ .dispose))

theorem run_twoElections : Run step InUse .init twoElections afterTwoElections :=
  run_iff_foldlM_guarded.mpr (by decide)

theorem one_candidate_twoElections :
    (∀ e support, afterTwoElections.supports[e]? = some support → support.starts = 1 ∧
      (afterTwoElections.leaderElection = some e ∧ support.stops = 0 ∧ support.listeners = 1 ∨
        afterTwoElections.leaderElection ≠ some e ∧ support.stops = 1 ∧
          support.listeners = 0)) ∧
    (∀ e eventType t, step afterTwoElections (.onElectionEvent e eventType) = some t →
      afterTwoElections.leaderElection = some e) ∧
    afterTwoElections.tasks.countP (fun task => task.stage.inside) ≤ 1 :=
  one_candidate run_twoElections

/-! ## Progress -/

/-- How many awaits are left at most. -/
def Stage.left : Stage → ℕ
  | .waiting => 5
  | .creatingParent => 4
  | .subscribing => 3
  | .creating => 2
  | .starting _ => 1
  | .stopping _ => 1

/-- How often the calls in progress can still await something. -/
def awaitsLeft (s : State) : ℕ := (s.tasks.map fun task => task.stage.left).sum

/-- A call goes on. -/
def GoesOn (_ : State) : Event → Prop
  | .enter _ => True
  | .resume _ _ => True
  | _ => False

theorem awaitsLeft_eq (h : s.tasks[i]? = some task) :
    awaitsLeft s = task.stage.left + ((s.tasks.eraseIdx i).map fun task => task.stage.left).sum := by
  show ((s.tasks.map fun task => task.stage.left).sum = _)
  rw [((perm_eraseIdx h).map _).sum_eq]
  simp

theorem awaitsLeft_goto (h : s.tasks[i]? = some task) {stage : Stage}
    (hlt : stage.left < task.stage.left) : awaitsLeft (s.goto i task stage) < awaitsLeft s := by
  have hset : awaitsLeft (s.goto i task stage) =
      stage.left + ((s.tasks.eraseIdx i).map fun task => task.stage.left).sum := by
    show ((s.tasks.set i _).map fun task => task.stage.left).sum = _
    rw [((perm_set h _).map _).sum_eq]
    simp
  rw [hset, awaitsLeft_eq h]
  omega

theorem awaitsLeft_finish (h : s.tasks[i]? = some task) (returns : Bool) :
    awaitsLeft (s.finish i task returns) < awaitsLeft s := by
  have herase : awaitsLeft (s.finish i task returns) =
      ((s.tasks.eraseIdx i).map fun task => task.stage.left).sum := by
    unfold State.finish State.release
    cases task.job with
    | initializeElection => simp only; split_ifs <;> rfl
    | handleDisconnected isConnected => simp only; split_ifs <;> rfl
    | dispose => rfl
  have hpos : 0 < task.stage.left := by cases task.stage <;> simp [Stage.left]
  rw [herase, awaitsLeft_eq h]
  omega

theorem awaitsLeft_startElection (h : s.tasks[i]? = some task) (hlt : 2 < task.stage.left) :
    awaitsLeft (s.startElection i task) < awaitsLeft s := by
  unfold State.startElection
  split
  · exact awaitsLeft_finish h true
  · exact awaitsLeft_goto h hlt

theorem awaitsLeft_stopElection (h : s.tasks[i]? = some task) (hlt : 1 < task.stage.left) :
    awaitsLeft (s.stopElection i task) < awaitsLeft s := by
  unfold State.stopElection
  split
  · exact awaitsLeft_finish h true
  · exact awaitsLeft_goto h hlt

theorem awaitsLeft_proceed (h : s.tasks[i]? = some task) (hproceed : s.proceed i task = some t) :
    awaitsLeft t < awaitsLeft s := by
  unfold State.proceed at hproceed
  cases hstage : task.stage with
  | waiting => simp [hstage] at hproceed
  | creatingParent =>
    simp only [hstage, Option.some.injEq] at hproceed
    rw [← hproceed]
    exact awaitsLeft_goto h (by rw [hstage]; decide)
  | subscribing =>
    simp only [hstage, Option.some.injEq] at hproceed
    rw [← hproceed]
    exact awaitsLeft_startElection (s := { s with subscriptions := s.subscriptions + 1 }) h
      (by rw [hstage]; decide)
  | creating =>
    simp only [hstage, Option.some.injEq] at hproceed
    rw [← hproceed]
    exact awaitsLeft_goto (s := s.addElection) h (by rw [hstage]; exact Nat.lt_succ_self 1)
  | starting e =>
    simp only [hstage, Option.some.injEq] at hproceed
    rw [← hproceed]
    exact awaitsLeft_finish h true
  | stopping e =>
    simp only [hstage] at hproceed
    split at hproceed
    · obtain rfl := Option.some.inj hproceed
      exact awaitsLeft_finish
        (s := { s with supports := s.supports.modify e LeaderElectionSupport.addStop }) h false
    · rename_i e' _
      obtain rfl := Option.some.inj hproceed
      exact awaitsLeft_finish
        (s := { s with
          supports := (s.supports.modify e LeaderElectionSupport.addStop).modify e'
            LeaderElectionSupport.removeListener
          leaderElection := none }) h true

/-- Each step of a call leaves fewer awaits. -/
theorem awaitsLeft_step {e : Event} (he : GoesOn s e) (hstep : step s e = some t) :
    awaitsLeft t < awaitsLeft s := by
  cases e with
  | enter i =>
    simp only [step] at hstep
    split at hstep
    · rename_i task hcall
      split_ifs at hstep with hwaits
      push Not at hwaits
      split at hstep
      · obtain rfl := Option.some.inj hstep
        exact awaitsLeft_goto (s := { s with lockCount := _ }) hcall (by rw [hwaits.1]; decide)
      · obtain rfl := Option.some.inj hstep
        exact awaitsLeft_startElection (s := { s with lockCount := _ }) hcall
          (by rw [hwaits.1]; decide)
      · obtain rfl := Option.some.inj hstep
        exact awaitsLeft_stopElection (s := { s with lockCount := _ }) hcall
          (by rw [hwaits.1]; decide)
      · cases hstep
    · cases hstep
  | resume i returns =>
    simp only [step] at hstep
    split at hstep
    · rename_i task hcall
      split_ifs at hstep
      · exact awaitsLeft_proceed hcall hstep
      · obtain rfl := Option.some.inj hstep
        exact awaitsLeft_finish hcall false
    · cases hstep
  | _ => exact he.elim

theorem awaitsLeft_run {es : List Event} (h : Run step GoesOn s es t) :
    es.length + awaitsLeft t ≤ awaitsLeft s := by
  induction h with
  | nil => simp
  | snoc _ he hstep ih =>
    have hlt := awaitsLeft_step he hstep
    rw [List.length_append, List.length_singleton]
    omega

theorem awaitsLeft_le (s : State) : awaitsLeft s ≤ 5 * s.tasks.length := by
  have hle : ∀ task : Task, task.stage.left ≤ 5 := fun task => by
    cases task.stage <;> simp [Stage.left]
  have hsum := List.sum_le_card_nsmul (s.tasks.map fun task => task.stage.left) 5
    (by simpa using fun task _ => hle task)
  simpa [awaitsLeft, mul_comm] using hsum

/-- Some call can go on, if there is one. -/
theorem Inv.goesOn (h : Inv s) (hcalls : s.tasks ≠ []) :
    ∃ e t, GoesOn s e ∧ Election.step s e = some t := by
  by_cases hinside : ∃ task ∈ s.tasks, task.stage ≠ .waiting
  · obtain ⟨task, htask, hinside⟩ := hinside
    obtain ⟨i, hcall⟩ := List.mem_iff_getElem?.mp htask
    refine ⟨.resume i false, s.finish i task false, trivial, ?_⟩
    simp [Election.step, hcall, hinside]
  · push Not at hinside
    obtain ⟨task, htask⟩ := List.exists_mem_of_ne_nil _ hcalls
    obtain ⟨i, hcall⟩ := List.mem_iff_getElem?.mp htask
    have hlock := h.lock
    rw [countP_waiting hinside] at hlock
    have hcount : s.lockCount ≠ 0 := by omega
    have hjob := h.jobs task htask
    refine ⟨.enter i, ?_⟩
    simp only [Election.step, hcall, hinside task htask, h.disposed, hcount]
    cases hcase : task.job with
    | initializeElection => exact ⟨_, trivial, rfl⟩
    | handleDisconnected isConnected => cases isConnected <;> exact ⟨_, trivial, rfl⟩
    | dispose => exact absurd hcase hjob

/-- **Calls end.** From every state in use, whatever is returned or thrown, the calls in progress
    take at most five steps each; and as long as there is a call, one can go on. Then the lock
    is free. -/
theorem calls_end {es es' : List Event} (h : Run step InUse .init es s)
    (hgo : Run step GoesOn s es' t) :
    es'.length ≤ 5 * s.tasks.length ∧
      ((∃ e u, GoesOn t e ∧ step t e = some u) ∨ t.tasks = [] ∧ t.lockCount = 1) := by
  constructor
  · have hrun := awaitsLeft_run hgo
    have hle := awaitsLeft_le s
    omega
  · have hi : Inv t := by
      refine hgo.invariant (inv_run h) ?_
      intro s e t hi he hstep
      refine hi.step ?_ hstep
      rintro rfl
      exact he
    by_cases hcalls : t.tasks = []
    · have hlock := hi.lock
      rw [hcalls] at hlock
      exact .inr ⟨hcalls, hlock⟩
    · exact .inl (hi.goesOn hcalls)

theorem calls_end_twoElections :
    let t := afterTwoElections.finish 0 ⟨.handleDisconnected true, .starting 1⟩ false
    1 ≤ 5 * 1 ∧
      ((∃ e u, GoesOn t e ∧ step t e = some u) ∨ t.tasks = [] ∧ t.lockCount = 1) :=
  calls_end run_twoElections (Run.single (e := .resume 0 false) (by trivial) rfl)

end

end Shortener.Election
