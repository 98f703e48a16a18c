import Shortener.Common.Run
import Shortener.DotNet.Channel
import Shortener.Shard.ShardType

/-!
# The background queue and its worker

One process of the backend: the handlers of any number of requests, the bounded
channel of `BackgroundTaskQueue`, and `QueuedHostedService.ProcessTaskQueue`, the only
reader of the channel (`Shortener.Shared/Services/TaskQueuingService.cs`). Two kinds
of work items call `QueueBackgroundWorkItem` themselves: `ChangeType` enqueues a
`DeleteTask`, and a `DeleteTask` enqueues itself after a `KeeperException`
(`Shortener.GrpcBackend/Services/ShardService.cs`, lines 90–142).

* `workerWaits_iff`: the worker never waits for room in its own queue exactly when it
  finds room at each of its own calls of `QueueBackgroundWorkItem`.
* `deadlocked_forever`: once it waits, nothing is dequeued any more.
* `workerWaits_capacity100`: with the capacity of `Program.cs` it can come to that.
-/

namespace Shortener.Queue

open Shortener.Common Shortener.DotNet Shortener.Shard

/-! ## State -/

/-- The work items of the backend. The bodies of the last two touch the cache or the
    database and enqueue nothing. -/
inductive WorkItem
  | changeType (newType : ShardType)
  | deleteTask (oldEphemeralPath : String)
  | cacheTask (key : String)
  | incrementVisit (shortId : String)
  deriving DecidableEq, Repr

/-- `DeleteTask` is local to `ShardService`. -/
def WorkItem.IsRequest : WorkItem → Prop
  | .deleteTask _ => False
  | _ => True

instance : DecidablePred WorkItem.IsRequest := fun item => by
  cases item <;> unfold WorkItem.IsRequest <;> infer_instance

/-- Who calls `QueueBackgroundWorkItem`. -/
inductive Caller
  | handler (n : ℕ)
  | worker
  deriving DecidableEq, Repr

/-- Where `ProcessTaskQueue` is. -/
inductive Worker
  /-- between two work items -/
  | idle
  /-- in `Dequeue`, with nothing to read -/
  | reading
  /-- in the body of a work item, before it enqueues anything -/
  | running (item : WorkItem)
  /-- in the five minutes of `DeleteTask` after a `KeeperException` -/
  | delaying (oldEphemeralPath : String)
  /-- in a call of `QueueBackgroundWorkItem` from the body of `item` -/
  | enqueuing (item : WorkItem)
  deriving DecidableEq, Repr

/-- A process; `type` and `shardChildPath` are fields of `ShardService`. -/
structure Process (c : ℕ) where
  startupCompleted : Bool
  type : ShardType
  shardChildPath : String
  queue : Channel c Caller WorkItem
  worker : Worker

variable {c : ℕ} {s t : Process c}

/-- A process that has not started up. -/
def Process.init (c : ℕ) : Process c := ⟨false, .uninitialized, "", .create c, .idle⟩

/-- A call of `QueueBackgroundWorkItem` by the worker waits for room. -/
def WorkerWaits (s : Process c) : Prop := ∃ call ∈ s.queue.writers, call.1 = .worker

instance (s : Process c) : Decidable (WorkerWaits s) :=
  inferInstanceAs (Decidable (∃ call ∈ s.queue.writers, call.1 = Caller.worker))

/-! ## Steps -/

/-- What can happen next. -/
inductive Event
  /-- `ShardService.Initialize` ends and `StartupCompleted` is set. -/
  | startup (type : ShardType) (shardChildPath : String)
  /-- A request handler enqueues an item. -/
  | enqueue (n : ℕ) (item : WorkItem)
  /-- The worker calls `Dequeue`. -/
  | dequeue
  /-- The body of the running item returns and has enqueued nothing. -/
  | returns
  /-- The body of the running item throws; `ProcessTaskQueue` catches it. -/
  | throws
  /-- `CreateChildEphemeral` of `ChangeType` returns the new path. -/
  | createChild (path : String)
  /-- `Delete` of `DeleteTask` throws a `KeeperException`. -/
  | keeperException
  /-- The delay of `DeleteTask` ends. -/
  | delayEnds
  /-- The worker's call of `QueueBackgroundWorkItem` has ended, and so does the body. -/
  | resume
  deriving DecidableEq, Repr

/-- The worker calls `QueueBackgroundWorkItem(task)` in the body of `item`. -/
def Process.workerEnqueues (s : Process c) (item task : WorkItem) : Process c :=
  { s with queue := (s.queue.write .worker task).1, worker := .enqueuing item }

/-- A step of the process. -/
def step (c : ℕ) [NeZero c] (s : Process c) : Event → Option (Process c)
  | .startup type shardChildPath =>
    if s.startupCompleted then none
    else some { s with startupCompleted := true, type := type, shardChildPath := shardChildPath }
  | .enqueue n item =>
    if item.IsRequest ∧ ∀ call ∈ s.queue.writers, call.1 ≠ .handler n then
      let (queue, handed) := s.queue.write (.handler n) item
      some { s with queue := queue, worker := handed.elim s.worker .running }
    else none
  | .dequeue =>
    if s.startupCompleted ∧ s.worker = .idle then
      let (queue, item) := s.queue.read
      some { s with queue := queue, worker := item.elim .reading .running }
    else none
  | .returns =>
    match s.worker with
    | .running (.changeType newType) =>
      if s.type = newType then some { s with worker := .idle } else none
    | .running _ => some { s with worker := .idle }
    | _ => none
  | .throws =>
    match s.worker with
    | .running _ => some { s with worker := .idle }
    | .delaying _ => some { s with worker := .idle }
    | _ => none
  | .createChild path =>
    match s.worker with
    | .running (.changeType newType) =>
      -- only the worker calls `ChangeType`, so `_lock` is free
      if s.type = newType then none
      else
        some (Process.workerEnqueues { s with shardChildPath := path } (.changeType newType)
          (.deleteTask s.shardChildPath))
    | _ => none
  | .keeperException =>
    match s.worker with
    | .running (.deleteTask oldEphemeralPath) => some { s with worker := .delaying oldEphemeralPath }
    | _ => none
  | .delayEnds =>
    match s.worker with
    | .delaying oldEphemeralPath =>
      some (s.workerEnqueues (.deleteTask oldEphemeralPath) (.deleteTask oldEphemeralPath))
    | _ => none
  | .resume =>
    if WorkerWaits s then none
    else
      match s.worker with
      | .enqueuing (.changeType newType) => some { s with type := newType, worker := .idle }
      | .enqueuing _ => some { s with worker := .idle }
      | _ => none

/-- The worker calls `QueueBackgroundWorkItem` in the step `e`. -/
def CallsQueue (s : Process c) : Event → Prop
  | .createChild _ => ∃ newType, s.worker = .running (.changeType newType) ∧ s.type ≠ newType
  | .delayEnds => ∃ oldEphemeralPath, s.worker = .delaying oldEphemeralPath
  | _ => False

/-! ## What a step does to the channel and the worker -/

/-- Every step is of one of four kinds: the channel is not touched; a handler writes;
    the worker reads; or the worker, which ran a body until now, writes. -/
theorem step_cases [NeZero c] {e : Event} (h : step c s e = some t) :
    (t.queue = s.queue ∧ ¬ CallsQueue s e ∧ (t.worker = s.worker ∨
      s.worker ≠ .reading ∧ t.worker ≠ .reading ∧
        ((∃ item, s.worker = .enqueuing item) → ¬ WorkerWaits s))) ∨
    (∃ n item, ¬ CallsQueue s e ∧ t.queue = (s.queue.write (.handler n) item).1 ∧
      t.worker = (s.queue.write (.handler n) item).2.elim s.worker .running) ∨
    (¬ CallsQueue s e ∧ s.worker = .idle ∧ t.queue = s.queue.read.1 ∧
      t.worker = s.queue.read.2.elim .reading .running) ∨
    (CallsQueue s e ∧ s.worker ≠ .reading ∧ (∀ item, s.worker ≠ .enqueuing item) ∧
      ∃ item task, t.queue = (s.queue.write .worker task).1 ∧ t.worker = .enqueuing item) := by
  cases e with
  | startup type path =>
    simp only [step, Option.ite_none_left_eq_some, Option.some.injEq] at h
    obtain ⟨-, rfl⟩ := h
    exact .inl ⟨rfl, id, .inl rfl⟩
  | enqueue n item =>
    simp only [step, Option.ite_none_right_eq_some, Option.some.injEq] at h
    obtain ⟨-, rfl⟩ := h
    exact .inr (.inl ⟨n, item, id, rfl, rfl⟩)
  | dequeue =>
    simp only [step, Option.ite_none_right_eq_some, Option.some.injEq] at h
    obtain ⟨⟨-, hw⟩, rfl⟩ := h
    exact .inr (.inr (.inl ⟨id, hw, rfl, rfl⟩))
  | returns =>
    simp only [step] at h
    split at h
    · rename_i hw
      simp only [Option.ite_none_right_eq_some, Option.some.injEq] at h
      obtain ⟨-, rfl⟩ := h
      exact .inl ⟨rfl, id, .inr (by simp [hw])⟩
    · rename_i hw
      obtain rfl := Option.some.inj h
      exact .inl ⟨rfl, id, .inr (by simp [hw])⟩
    · cases h
  | throws =>
    simp only [step] at h
    split at h
    · rename_i hw
      obtain rfl := Option.some.inj h
      exact .inl ⟨rfl, id, .inr (by simp [hw])⟩
    · rename_i hw
      obtain rfl := Option.some.inj h
      exact .inl ⟨rfl, id, .inr (by simp [hw])⟩
    · cases h
  | createChild path =>
    simp only [step] at h
    split at h
    · rename_i newType hw
      simp only [Option.ite_none_left_eq_some, Option.some.injEq] at h
      obtain ⟨hne, rfl⟩ := h
      exact .inr (.inr (.inr ⟨⟨newType, hw, hne⟩, by simp [hw], by simp [hw], _, _, rfl, rfl⟩))
    · cases h
  | keeperException =>
    simp only [step] at h
    split at h
    · rename_i hw
      obtain rfl := Option.some.inj h
      exact .inl ⟨rfl, id, .inr (by simp [hw])⟩
    · cases h
  | delayEnds =>
    simp only [step] at h
    split at h
    · rename_i path hw
      obtain rfl := Option.some.inj h
      exact .inr (.inr (.inr ⟨⟨path, hw⟩, by simp [hw], by simp [hw], _, _, rfl, rfl⟩))
    · cases h
  | resume =>
    simp only [step, Option.ite_none_left_eq_some] at h
    obtain ⟨hwaits, h⟩ := h
    split at h
    · rename_i hw
      obtain rfl := Option.some.inj h
      exact .inl ⟨rfl, id, .inr ⟨by simp [hw], by simp, fun _ => hwaits⟩⟩
    · rename_i hw
      obtain rfl := Option.some.inj h
      exact .inl ⟨rfl, id, .inr ⟨by simp [hw], by simp, fun _ => hwaits⟩⟩
    · cases h

/-! ## Invariant -/

/-- The worker waits in at most one place, and where the channel says it does. -/
structure Inv (s : Process c) : Prop where
  enqueuing : WorkerWaits s → ∃ item, s.worker = .enqueuing item
  reading : s.queue.reader = true ↔ s.worker = .reading

theorem inv_init (c : ℕ) : Inv (Process.init c) :=
  ⟨by simp [WorkerWaits, Process.init], by simp [Process.init]⟩

theorem workerWaits_congr (h : t.queue = s.queue) : WorkerWaits t ↔ WorkerWaits s := by
  rw [WorkerWaits, WorkerWaits, h]

theorem workerWaits_enqueue {n : ℕ} {item : WorkItem}
    (h : t.queue = (s.queue.write (.handler n) item).1) : WorkerWaits t ↔ WorkerWaits s := by
  rw [WorkerWaits, WorkerWaits, h, Channel.writers_write]
  split_ifs <;> simp [or_and_right, exists_or]

theorem workerWaits_dequeue [NeZero c] (h : t.queue = s.queue.read.1) (hs : ¬ WorkerWaits s) :
    ¬ WorkerWaits t := by
  rintro ⟨call, hmem, hcall⟩
  rw [h, Channel.writers_read] at hmem
  exact hs ⟨call, List.mem_of_mem_tail hmem, hcall⟩

theorem workerWaits_workerEnqueues {task : WorkItem}
    (h : t.queue = (s.queue.write .worker task).1) (hr : s.queue.reader = false)
    (hs : ¬ WorkerWaits s) : WorkerWaits t ↔ ¬ s.queue.items.length < c := by
  rw [WorkerWaits] at hs
  rw [WorkerWaits, h, Channel.writers_write]
  by_cases hlt : s.queue.items.length < c
  · simp only [hlt, or_true, if_true, hs, not_true_eq_false]
  · simp [hlt, hr]

theorem inv_step [NeZero c] {e : Event} (hi : Inv s) (h : step c s e = some t) : Inv t := by
  rcases step_cases h with ⟨hq, -, hw | ⟨hs, ht, hwait⟩⟩ | ⟨n, item, -, hq, hw⟩ |
    ⟨-, hidle, hq, hw⟩ | ⟨-, hr, -, item, task, hq, hw⟩
  · constructor
    · intro hwaits
      rw [hw]
      exact hi.enqueuing ((workerWaits_congr hq).mp hwaits)
    · rw [hq, hw]
      exact hi.reading
  · constructor
    · intro hwaits
      rw [workerWaits_congr hq] at hwaits
      exact absurd hwaits (hwait (hi.enqueuing hwaits))
    · rw [hq, hi.reading]
      simp [hs, ht]
  · constructor
    · intro hwaits
      rw [workerWaits_enqueue hq] at hwaits
      obtain ⟨it, hit⟩ := hi.enqueuing hwaits
      have hnr : s.queue.reader ≠ true := fun hr => by simp [hi.reading.mp hr] at hit
      exact ⟨it, by rw [hw, Channel.write_snd, if_neg hnr, Option.elim_none, hit]⟩
    · rw [hq, hw, Channel.reader_write, Channel.write_snd]
      by_cases hr : s.queue.reader = true
      · simp [hr]
      · simpa [hr] using fun hw => hr (hi.reading.mpr hw)
  · constructor
    · intro hwaits
      have hs : ¬ WorkerWaits s := fun hs => by
        obtain ⟨it, hit⟩ := hi.enqueuing hs
        simp [hidle] at hit
      exact absurd hwaits (workerWaits_dequeue hq hs)
    · rw [hq, hw, Channel.reader_read]
      cases s.queue.read.2 <;> simp
  · exact ⟨fun _ => ⟨item, hw⟩, by simp [hq, hw]⟩

/-! ## When the worker waits -/

/-- Where the worker calls `QueueBackgroundWorkItem`, the queue holds fewer than `c` items. -/
def HasRoom (s : Process c) (e : Event) : Prop := CallsQueue s e → s.queue.items.length < c

theorem workerWaits_step [NeZero c] {e : Event} (hi : Inv s) (h : step c s e = some t) :
    ¬ WorkerWaits t ↔ ¬ WorkerWaits s ∧ HasRoom s e := by
  rcases step_cases h with ⟨hq, hcall, -⟩ | ⟨n, item, hcall, hq, -⟩ |
    ⟨hcall, hidle, hq, -⟩ | ⟨hcall, hr, he, item, task, hq, -⟩
  · simp [HasRoom, hcall, workerWaits_congr hq]
  · simp [HasRoom, hcall, workerWaits_enqueue hq]
  · have hs : ¬ WorkerWaits s := fun hs => by
      obtain ⟨it, hit⟩ := hi.enqueuing hs
      simp [hidle] at hit
    simp [HasRoom, hcall, hs, workerWaits_dequeue hq hs]
  · have hs : ¬ WorkerWaits s := fun hs => by
      obtain ⟨it, hit⟩ := hi.enqueuing hs
      exact he it hit
    have hreader : s.queue.reader = false := by
      simpa using fun hread => hr (hi.reading.mp hread)
    rw [workerWaits_workerEnqueues hq hreader hs]
    simp [HasRoom, hcall, hs]

/-- The worker waits for room, and `items` are in the queue. -/
structure Deadlocked (items : List WorkItem) (s : Process c) : Prop where
  inv : Inv s
  waits : WorkerWaits s
  items_eq : s.queue.items = items

theorem deadlocked_step [NeZero c] {items : List WorkItem} {e : Event} (hs : Deadlocked items s)
    (h : step c s e = some t) : Deadlocked items t := by
  obtain ⟨item, hitem⟩ := hs.inv.enqueuing hs.waits
  have hreader : s.queue.reader = false := by
    simpa [hitem] using hs.inv.reading
  obtain ⟨call, hmem, -⟩ := hs.waits
  have hfull := s.queue.full (List.ne_nil_of_mem hmem)
  refine ⟨inv_step hs.inv h, ?_, ?_⟩
  · by_contra ht
    exact ((workerWaits_step hs.inv h).mp ht).1 hs.waits
  · rw [← hs.items_eq]
    rcases step_cases h with ⟨hq, -⟩ | ⟨n, it, -, hq, -⟩ | ⟨-, hidle, -⟩ | ⟨-, -, he, -⟩
    · rw [hq]
    · rw [hq, Channel.items_write_of_full hfull hreader]
    · simp [hitem] at hidle
    · exact absurd hitem (he item)

/-- Once the worker waits, it waits forever: nothing leaves the queue any more. -/
theorem deadlocked_forever [NeZero c] {items : List WorkItem} {es : List Event}
    (h : Run (step c) always s es t) (hs : Deadlocked items s) : Deadlocked items t :=
  h.invariant hs fun _ _ _ hs _ h => deadlocked_step hs h

/-- **Deadlock.** -/
theorem workerWaits_iff [NeZero c] {es : List Event} (h : Run (step c) always (.init c) es s) :
    ¬ WorkerWaits s ↔ Run (step c) HasRoom (.init c) es s :=
  h.safe_iff (inv_init c) (by simp [WorkerWaits, Process.init])
    (fun s e t hi hs => inv_step hi hs) fun s e t hi hs => workerWaits_step hi hs

/-- A shard changes its type while its queue is empty. -/
def quietRun : List Event :=
  [.startup .readWrite "shard-0000000000", .enqueue 0 (.changeType .writeUrlsOnly), .dequeue,
    .createChild "shard-0000000001", .resume, .dequeue, .returns]

theorem workerWaits_iff_quietRun :
    ∃ s, ¬ WorkerWaits s ∧ (¬ WorkerWaits s ↔ Run (step 1) HasRoom (.init 1) quietRun s) := by
  have hrun : Run (step 1) always (.init 1) quietRun
      ((quietRun.foldlM (step 1) (.init 1)).getD (.init 1)) := run_iff_foldlM.mpr rfl
  exact ⟨_, by decide, workerWaits_iff hrun⟩

/-- A shard changes its type while 100 other requests enqueue their items. -/
def busyRun : List Event :=
  [.startup .readWrite "shard-0000000000", .enqueue 0 (.changeType .writeUrlsOnly), .dequeue] ++
    (List.range 100).map (fun n => .enqueue n (.cacheTask "Url-Stats:1L9zO9P")) ++
    [.createChild "shard-0000000001"]

theorem workerWaits_capacity100 :
    ∃ s, Run (step 100) always (.init 100) busyRun s ∧ WorkerWaits s := by
  have hrun : (busyRun.foldlM (step 100) (.init 100)).any (fun s => decide (WorkerWaits s)) := by
    decide +kernel
  obtain ⟨s, hs, hwaits⟩ := Option.any_eq_true _ _ |>.mp hrun
  exact ⟨s, run_iff_foldlM.mpr hs, of_decide_eq_true hwaits⟩

end Shortener.Queue
