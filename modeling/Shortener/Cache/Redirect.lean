import Shortener.DotNet.Channel
import Shortener.Links.Database

/-!
# The redirect cache

A shard, the Redis entries its calls write, and the calls of `UrlService` that touch the
entry `Url-Mapping:{shortId}`: `Redirect`, `Update` and `Delete`
(`Shortener.GrpcBackend/Services/UrlService.cs`, lines 83–102 and 237–276), with the
statements of `Shortener.Links.Database`. A call first reads or changes the row and then
enqueues its tasks one by one, so other calls and the worker get in between. The worker
runs the tasks in the order of the queue, and every task succeeds.

* `urlMapping_agrees`: with nothing in progress the entry is absent or equal to the
  row, if no `Redirect` enqueues a value that the row has lost in the meantime, unless
  a call in progress still has to repair it.
* `urlMapping_stale`: nothing in the code ensures that.
-/

namespace Shortener.Cache

open Shortener.Common Shortener.DotNet Shortener.Codec Shortener.Links

/-! ## State -/

/-- The keys of `Shortener.Shared/Utils/CacheUtils.cs` that the calls use. -/
inductive CacheKey
  | urlMapping (shortId : ShortId)
  | urlStats (shortId : ShortId)
  | userHash (range userId : ℤ)
  deriving DecidableEq, Repr

/-- The work items the calls enqueue. -/
inductive Task
  | incrementVisit (shortId : ShortId)
  | setString (key : CacheKey) (data : String)
  | remove (key : CacheKey)
  deriving DecidableEq, Repr

/-- The strings that Redis holds. -/
abbrev Entries := CacheKey → Option String

/-- A shard with its worker. -/
structure State (c : ℕ) where
  database : Database
  cache : Entries
  queue : Channel c ℕ Task
  /-- the task the worker runs -/
  running : Option Task
  /-- the tasks that each call in progress still has to enqueue -/
  calls : ℕ → Option (List Task)

/-- Nothing is cached, and nothing is to be done. -/
def State.init (c : ℕ) (database : Database) : State c :=
  ⟨database, fun _ => none, .create c, none, fun _ => none⟩

variable {c : ℕ} {shard : ℤ} {s t : State c}

/-! ## Steps -/

/-- What can happen next. -/
inductive Event
  /-- `Redirect` reads the row. -/
  | redirect (n : ℕ) (shortId : ShortId)
  /-- `Update` runs its statement. -/
  | update (n : ℕ) (userId : ℤ) (shortId : ShortId) (domainId : ℤ) (destinationUrl : String)
  /-- `Delete` runs its statement. -/
  | delete (n : ℕ) (userId : ℤ) (shortId : ShortId)
  /-- Call `n` enqueues its next task. -/
  | enqueue (n : ℕ)
  /-- Call `n` has enqueued all its tasks and answers. -/
  | finish (n : ℕ)
  /-- The worker calls `Dequeue`. -/
  | dequeue
  /-- The worker runs the task it has. -/
  | runTask
  /-- An entry expires. -/
  | expire (key : CacheKey)
  deriving DecidableEq, Repr

/-- What a task does to the entries. -/
def Task.run : Task → Entries → Entries
  | .incrementVisit _, cache => cache
  | .setString key data, cache => Function.update cache key (some data)
  | .remove key, cache => Function.update cache key none

/-- What a task does to the table. -/
def Task.count : Task → Database → Database
  | .incrementVisit shortId, database => database.incrementVisit shortId.index
  | _, database => database

/-- The tasks of a `Redirect` that read `row`. -/
def redirectTasks (shard : ℤ) (shortId : ShortId) (row : UrlRow) : List Task :=
  [.incrementVisit shortId, .setString (.urlMapping ⟨shard, row.id⟩) row.destinationUrl]

/-- The tasks of an `Update` or a `Delete`. -/
def removeTasks (shard userId : ℤ) (shortId : ShortId) : List Task :=
  [.remove (.urlMapping shortId), .remove (.urlStats shortId), .remove (.userHash shard userId)]

/-- A step of a call, of the worker or of Redis. -/
def step (c : ℕ) [NeZero c] (shard : ℤ) (s : State c) : Event → Option (State c)
  | .redirect n shortId =>
    -- the frontends send a call to the shard in its short id
    if s.calls n = none ∧ shortId.range = shard then
      match s.database.getByUrlId shortId.index with
      | .ok (some row) =>
        some { s with calls := Function.update s.calls n (some (redirectTasks shard shortId row)) }
      | _ => none
    else none
  | .update n userId shortId domainId destinationUrl =>
    if s.calls n = none ∧ shortId.range = shard then
      some { s with
        database := s.database.update shortId.index userId domainId destinationUrl
        calls := Function.update s.calls n (some (removeTasks shard userId shortId)) }
    else none
  | .delete n userId shortId =>
    if s.calls n = none ∧ shortId.range = shard then
      some { s with
        database := s.database.delete shortId.index userId
        calls := Function.update s.calls n (some (removeTasks shard userId shortId)) }
    else none
  | .enqueue n =>
    if ∀ call ∈ s.queue.writers, call.1 ≠ n then
      match s.calls n with
      | some (task :: tasks) =>
        let (queue, handed) := s.queue.write n task
        some { s with
          queue := queue
          running := handed.elim s.running some
          calls := Function.update s.calls n (some tasks) }
      | _ => none
    else none
  | .finish n =>
    if s.calls n = some [] ∧ ∀ call ∈ s.queue.writers, call.1 ≠ n then
      some { s with calls := Function.update s.calls n none }
    else none
  | .dequeue =>
    if s.running = none ∧ s.queue.reader = false then
      let (queue, task) := s.queue.read
      some { s with queue := queue, running := task }
    else none
  | .runTask =>
    s.running.map fun task =>
      { s with database := task.count s.database, cache := task.run s.cache, running := none }
  | .expire key => some { s with cache := Function.update s.cache key none }

/-! ## The entry once the queue has been worked off -/

/-- The tasks the worker still has to run, in order. -/
def State.pending (s : State c) : List Task := s.running.toList ++ s.queue.pending

/-- The entries after the worker has run the tasks. -/
def drain (tasks : List Task) (cache : Entries) : Entries :=
  tasks.foldl (fun cache task => task.run cache) cache

/-- The entries after the pending tasks. -/
def State.settled (s : State c) : Entries := drain s.pending s.cache

/-- Where the row leads. -/
def destinationOf (database : Database) (id : ℤ) : Option String :=
  (database.urls.find? fun url => url.id = id).map UrlRow.destinationUrl

/-- The value an entry should have, if it is there. -/
def State.destination (s : State c) (shortId : ShortId) : Option String :=
  destinationOf s.database shortId.index

/-- The entry of `shortId` is absent, or it is the destination of the row. -/
def Agrees (s : State c) (cache : Entries) (shortId : ShortId) : Prop :=
  cache (.urlMapping shortId) = none ∨ cache (.urlMapping shortId) = s.destination shortId

/-- Running the task makes the entry of `shortId` agree with the row. -/
def Repairs (s : State c) (shortId : ShortId) (task : Task) : Prop :=
  task = .remove (.urlMapping shortId) ∨
    ∃ data, task = .setString (.urlMapping shortId) data ∧ s.destination shortId = some data

/-- A call in progress still has to enqueue a task that repairs the entry. -/
def RepairComes (s : State c) (calls : ℕ → Option (List Task)) (shortId : ShortId) : Prop :=
  ∃ n tasks, calls n = some tasks ∧ ∃ task ∈ tasks, Repairs s shortId task

/-- No call is in progress and the worker has nothing to do. -/
def AtRest (s : State c) : Prop := (∀ n, s.calls n = none) ∧ s.pending = []

/-- Rows that are changed in place lead where they led, if their destination is kept. -/
theorem destinationOf_map {database : Database} {f : UrlRow → UrlRow} {id : ℤ}
    (hid : ∀ url, (f url).id = url.id)
    (hkept : ∀ url, url.id = id → (f url).destinationUrl = url.destinationUrl) :
    destinationOf { database with urls := database.urls.map f } id = destinationOf database id := by
  have hsame : ((fun url : UrlRow => decide (url.id = id)) ∘ f) =
      fun url => decide (url.id = id) := by
    funext url
    simp [hid]
  simp only [destinationOf, List.find?_map, hsame]
  cases hfound : database.urls.find? fun url => url.id = id with
  | none => rfl
  | some url => exact congrArg some (hkept url (by simpa using List.find?_some hfound))

theorem destinationOf_update (database : Database) {id id' : ℤ} (h : id' ≠ id)
    (userId domainId : ℤ) (destinationUrl : String) :
    destinationOf (database.update id userId domainId destinationUrl) id' =
      destinationOf database id' := by
  refine destinationOf_map (fun url => ?_) fun url hurl => ?_
  · split_ifs <;> rfl
  · rw [if_neg fun hmatch => h (hurl.symm.trans hmatch.1)]

theorem destinationOf_delete (database : Database) {id id' : ℤ} (h : id' ≠ id) (userId : ℤ) :
    destinationOf (database.delete id userId) id' = destinationOf database id' := by
  have hfound : (database.urls.filter fun url => ¬ (url.id = id ∧ url.userId = userId)).find?
      (fun url => url.id = id') = database.urls.find? fun url => url.id = id' := by
    rw [List.find?_filter]
    congr 1
    funext url
    by_cases hid : url.id = id'
    · simp [hid, h]
    · simp [hid]
  exact congrArg _ hfound

@[simp] theorem destinationOf_count (task : Task) (database : Database) (id : ℤ) :
    destinationOf (task.count database) id = destinationOf database id := by
  cases task with
  | incrementVisit shortId =>
    refine destinationOf_map (fun url => ?_) fun url _ => ?_
    · split_ifs <;> rfl
    · split_ifs <;> rfl
  | _ => rfl

theorem drain_append (tasks : List Task) (task : Task) (cache : Entries) :
    drain (tasks ++ [task]) cache = task.run (drain tasks cache) := by
  simp [drain]

/-- An entry that expires early may only be absent later on. -/
theorem drain_expire (tasks : List Task) (cache : Entries) (key k : CacheKey) :
    drain tasks (Function.update cache key none) k = none ∨
      drain tasks (Function.update cache key none) k = drain tasks cache k := by
  induction tasks using List.reverseRecOn with
  | nil =>
    by_cases h : k = key
    · exact .inl (by simp [drain, h])
    · exact .inr (by simp [drain, h])
  | append_singleton tasks task ih =>
    rw [drain_append, drain_append]
    cases task with
    | incrementVisit => exact ih
    | setString key' data =>
      by_cases h : k = key'
      · exact .inr (by simp [Task.run, h])
      · simpa [Task.run, h] using ih
    | remove key' =>
      by_cases h : k = key'
      · exact .inr (by simp [Task.run, h])
      · simpa [Task.run, h] using ih

theorem settled_enqueue {n : ℕ} {task : Task} (hr : s.queue.reader = true → s.running = none)
    (hq : t.queue = (s.queue.write n task).1)
    (hw : t.running = (s.queue.write n task).2.elim s.running some) (hc : t.cache = s.cache) :
    t.settled = task.run s.settled := by
  have hpending : t.pending = s.pending ++ [task] := by
    have hfifo := s.queue.write_pending n task
    rw [Channel.write_snd] at hfifo hw
    rw [State.pending, State.pending, List.append_assoc, hw, hq]
    by_cases hread : s.queue.reader = true
    · rw [if_pos hread] at hfifo ⊢
      simpa [hr hread] using hfifo
    · rw [if_neg hread] at hfifo ⊢
      simpa using hfifo
  rw [State.settled, State.settled, hpending, hc, drain_append]

theorem settled_dequeue [NeZero c] (hr : s.running = none) (hq : t.queue = s.queue.read.1)
    (hw : t.running = s.queue.read.2) (hc : t.cache = s.cache) : t.settled = s.settled := by
  rw [State.settled, State.settled, State.pending, State.pending, hq, hw, hc, hr,
    Channel.read_pending, Option.toList_none, List.nil_append]

theorem settled_runTask {task : Task} (hr : s.running = some task) (hq : t.queue = s.queue)
    (hw : t.running = none) (hc : t.cache = task.run s.cache) : t.settled = s.settled := by
  rw [State.settled, State.settled, State.pending, State.pending, hq, hw, hc, hr]
  rfl

/-! ## Invariant -/

/-- Once the queue has been worked off, every entry of the shard agrees with its row, or
    a call in progress still has to repair it. -/
structure Inv (shard : ℤ) (s : State c) : Prop where
  reading : s.queue.reader = true → s.running = none
  entry : ∀ shortId, shortId.range = shard →
    Agrees s s.settled shortId ∨ RepairComes s s.calls shortId

theorem inv_init (shard : ℤ) (c : ℕ) (database : Database) : Inv shard (State.init c database) :=
  ⟨fun _ => rfl, fun _ _ => .inl (.inl rfl)⟩

/-- A `Redirect` enqueues the destination the row still has, or another call in progress
    has yet to enqueue a task that repairs the entry. -/
def Current (s : State c) (e : Event) : Prop :=
  ∀ n shortId data tasks, e = .enqueue n →
    s.calls n = some (.setString (.urlMapping shortId) data :: tasks) →
    s.destination shortId = some data ∨
      RepairComes s (Function.update s.calls n (some tasks)) shortId

/-- Another call in progress leaves the repairs that are still to come. -/
theorem RepairComes.start {shortId : ShortId} (h : RepairComes s s.calls shortId) {n : ℕ}
    (hn : s.calls n = none) (tasks : List Task)
    (hd : t.destination shortId = s.destination shortId) :
    RepairComes t (Function.update s.calls n (some tasks)) shortId := by
  obtain ⟨m, tasks', hm, task, hmem, hrep⟩ := h
  have hne : m ≠ n := by
    rintro rfl
    simp [hn] at hm
  exact ⟨m, tasks', by rw [Function.update_of_ne hne, hm], task, hmem, by rwa [Repairs, hd]⟩

/-- A call that changed a row has its `Remove` to enqueue. -/
theorem repairComes_removeTasks (calls : ℕ → Option (List Task)) (n : ℕ) (userId : ℤ)
    (shortId : ShortId) :
    RepairComes s (Function.update calls n (some (removeTasks shard userId shortId))) shortId :=
  ⟨n, _, Function.update_self .., _, List.mem_cons_self, .inl rfl⟩

theorem inv_redirect (hi : Inv shard s) {n : ℕ} (hn : s.calls n = none) (tasks : List Task) :
    Inv shard { s with calls := Function.update s.calls n (some tasks) } :=
  ⟨hi.reading, fun shortId hr => (hi.entry shortId hr).imp id fun h => h.start hn tasks rfl⟩

/-- Changing a row is safe, as its call then has a `Remove` to enqueue. -/
theorem inv_changeRow (hi : Inv shard s) {n : ℕ} (hn : s.calls n = none) (userId : ℤ)
    {shortId : ShortId} (hr : shortId.range = shard) {database : Database}
    (hothers : ∀ id, id ≠ shortId.index → destinationOf database id = destinationOf s.database id) :
    Inv shard { s with
      database := database
      calls := Function.update s.calls n (some (removeTasks shard userId shortId)) } := by
  refine ⟨hi.reading, ?_⟩
  intro id hid
  by_cases heq : id = shortId
  · subst heq
    exact .inr (repairComes_removeTasks _ _ _ _)
  · have hindex : id.index ≠ shortId.index := fun h => heq (ShortId.ext (hid.trans hr.symm) h)
    have hd : State.destination { s with
        database := database
        calls := Function.update s.calls n (some (removeTasks shard userId shortId)) } id =
          s.destination id := hothers id.index hindex
    rcases hi.entry id hid with h | h
    · exact .inl (by rw [Agrees, hd]; exact h)
    · exact .inr (h.start hn _ hd)

theorem inv_enqueue (hi : Inv shard s) {n : ℕ} {task : Task} {tasks : List Task}
    (hn : s.calls n = some (task :: tasks)) (hok : Current s (.enqueue n))
    (hq : t.queue = (s.queue.write n task).1)
    (hw : t.running = (s.queue.write n task).2.elim s.running some)
    (hd : ∀ shortId, t.destination shortId = s.destination shortId) (hc : t.cache = s.cache)
    (hcalls : t.calls = Function.update s.calls n (some tasks)) : Inv shard t := by
  have hrep : ∀ shortId task, Repairs t shortId task ↔ Repairs s shortId task := by
    simp [Repairs, hd]
  refine ⟨fun hr => by simp [hq] at hr, ?_⟩
  intro shortId hr
  rw [Agrees, settled_enqueue hi.reading hq hw hc, hd, hcalls]
  simp only [RepairComes, hrep]
  -- the repair that was to come is the task enqueued now, or it still is to come
  have hstill : RepairComes s s.calls shortId → Repairs s shortId task ∨
      RepairComes s (Function.update s.calls n (some tasks)) shortId := by
    rintro ⟨m, tasks', hm, task', hmem, hrep'⟩
    by_cases hmn : m = n
    · subst hmn
      obtain rfl := Option.some.inj (hn.symm.trans hm)
      rcases List.mem_cons.mp hmem with rfl | hmem
      · exact .inl hrep'
      · exact .inr ⟨m, tasks, Function.update_self .., task', hmem, hrep'⟩
    · exact .inr ⟨m, tasks', by rw [Function.update_of_ne hmn, hm], task', hmem, hrep'⟩
  cases task with
  | incrementVisit id =>
    rcases hi.entry shortId hr with h | h
    · exact .inl h
    · rcases hstill h with h | h
      · simp [Repairs] at h
      · exact .inr h
  | setString key data =>
    by_cases hkey : CacheKey.urlMapping shortId = key
    · subst hkey
      rcases hok n shortId data tasks rfl hn with h | h
      · exact .inl (.inr (by simp [Task.run, h]))
      · exact .inr h
    · simp only [Task.run, Function.update_of_ne hkey]
      rcases hi.entry shortId hr with h | h
      · exact .inl h
      · rcases hstill h with h | h
        · simp [Repairs, Ne.symm hkey] at h
        · exact .inr h
  | remove key =>
    by_cases hkey : CacheKey.urlMapping shortId = key
    · subst hkey
      exact .inl (.inl (by simp [Task.run]))
    · simp only [Task.run, Function.update_of_ne hkey]
      rcases hi.entry shortId hr with h | h
      · exact .inl h
      · rcases hstill h with h | h
        · simp [Repairs, Ne.symm hkey] at h
        · exact .inr h

theorem inv_finish (hi : Inv shard s) {n : ℕ} (hn : s.calls n = some []) :
    Inv shard { s with calls := Function.update s.calls n none } := by
  refine ⟨hi.reading, fun shortId hr => (hi.entry shortId hr).imp id ?_⟩
  rintro ⟨m, tasks, hm, task, hmem, hrep⟩
  have hne : m ≠ n := by
    rintro rfl
    obtain rfl := Option.some.inj (hn.symm.trans hm)
    simp at hmem
  exact ⟨m, tasks, (Function.update_of_ne hne _ _).trans hm, task, hmem, hrep⟩

/-- A change of the cache and the queue that settles to the same entries. -/
theorem inv_settled (hi : Inv shard s) (hread : t.queue.reader = true → t.running = none)
    (hd : ∀ shortId, t.destination shortId = s.destination shortId) (hcalls : t.calls = s.calls)
    (hsettled : ∀ key, t.settled key = none ∨ t.settled key = s.settled key) : Inv shard t := by
  refine ⟨hread, fun shortId hr => (hi.entry shortId hr).imp ?_ ?_⟩
  · rw [Agrees, Agrees, hd]
    intro h
    rcases hsettled (.urlMapping shortId) with hnone | hsame
    · exact .inl hnone
    · rwa [hsame]
  · rw [hcalls]
    simp only [RepairComes, Repairs, hd]
    exact id

theorem inv_step [NeZero c] {e : Event} (hi : Inv shard s) (hok : Current s e)
    (h : step c shard s e = some t) : Inv shard t := by
  cases e with
  | redirect n shortId =>
    simp only [step, Option.ite_none_right_eq_some] at h
    obtain ⟨⟨hn, -⟩, h⟩ := h
    split at h
    · obtain rfl := Option.some.inj h
      exact inv_redirect hi hn _
    · cases h
  | update n userId shortId domainId destinationUrl =>
    simp only [step, Option.ite_none_right_eq_some, Option.some.injEq] at h
    obtain ⟨⟨hn, hr⟩, rfl⟩ := h
    exact inv_changeRow hi hn userId hr fun id hid =>
      destinationOf_update s.database hid userId domainId destinationUrl
  | delete n userId shortId =>
    simp only [step, Option.ite_none_right_eq_some, Option.some.injEq] at h
    obtain ⟨⟨hn, hr⟩, rfl⟩ := h
    exact inv_changeRow hi hn userId hr fun id hid => destinationOf_delete s.database hid userId
  | enqueue n =>
    simp only [step, Option.ite_none_right_eq_some] at h
    obtain ⟨-, h⟩ := h
    split at h
    · rename_i task tasks hn
      obtain rfl := Option.some.inj h
      exact inv_enqueue hi hn hok rfl rfl (fun _ => rfl) rfl rfl
    · cases h
  | finish n =>
    simp only [step, Option.ite_none_right_eq_some, Option.some.injEq] at h
    obtain ⟨⟨hn, -⟩, rfl⟩ := h
    exact inv_finish hi hn
  | dequeue =>
    simp only [step, Option.ite_none_right_eq_some, Option.some.injEq] at h
    obtain ⟨⟨hrun, -⟩, rfl⟩ := h
    refine inv_settled hi (Channel.reader_read _).mp (fun _ => rfl) rfl
      fun key => .inr (congrFun ?_ key)
    exact settled_dequeue hrun rfl rfl rfl
  | runTask =>
    simp only [step, Option.map_eq_some_iff] at h
    obtain ⟨task, hrun, rfl⟩ := h
    refine inv_settled hi (fun _ => rfl) (fun shortId => ?_) rfl fun key => .inr (congrFun ?_ key)
    · exact destinationOf_count task s.database shortId.index
    · exact settled_runTask hrun rfl rfl rfl
  | expire key =>
    simp only [step, Option.some.injEq] at h
    subst h
    exact inv_settled hi hi.reading (fun _ => rfl) rfl fun k => drain_expire _ _ key k

/-! ## Main theorem -/

/-- **The redirect cache at rest.** -/
theorem urlMapping_agrees [NeZero c] (database : Database) {es : List Event}
    (h : Run (step c shard) Current (.init c database) es s) (hrest : AtRest s) (shortId : ShortId)
    (hr : shortId.range = shard) : Agrees s s.cache shortId := by
  have hinv : Inv shard s := h.invariant (inv_init shard c database)
    fun s e t hi hok hs => inv_step hi hok hs
  have hsettled : s.settled = s.cache := by rw [State.settled, hrest.2]; rfl
  rcases hinv.entry shortId hr with hagrees | ⟨n, tasks, hn, -⟩
  · rwa [hsettled] at hagrees
  · simp [hrest.1 n] at hn

/-- Two links of shard 0. -/
def twoLinks : Database :=
  ⟨[⟨1, "old.example"⟩], 1,
    [⟨1, 7, 1, "https://old.example", 0⟩, ⟨2, 7, 1, "https://old.example/2", 0⟩], 2⟩

/-- The worker runs its next tasks. -/
def work (n : ℕ) : List Event := (List.replicate n [.dequeue, .runTask]).flatten

/-- The `Set` of a `Redirect` that read an old row comes before the `Remove` of the `Update` that
    changed it. Then a `Redirect` reads the new row, and the other link is cached and deleted. -/
def quietRun : List Event :=
  [.redirect 0 ⟨0, 1⟩, .update 1 7 ⟨0, 1⟩ 1 "https://new.example", .enqueue 0, .enqueue 0,
    .enqueue 1, .enqueue 1, .enqueue 1, .finish 0, .finish 1] ++ work 5 ++
  [.redirect 2 ⟨0, 1⟩, .redirect 3 ⟨0, 2⟩, .enqueue 2, .enqueue 2, .enqueue 3, .enqueue 3,
    .finish 2, .finish 3] ++ work 4 ++
  [.delete 0 7 ⟨0, 2⟩, .enqueue 0, .enqueue 0, .enqueue 0, .finish 0] ++ work 3

/-- The task is a `Set` of the current destination, or call 1 has its `Remove` to enqueue. -/
def Harmless (s : State c) : Event → Prop
  | .enqueue n =>
    match s.calls n with
    | some (.setString (.urlMapping shortId) data :: _) =>
      s.destination shortId = some data ∨
        n ≠ 1 ∧ Task.remove (.urlMapping shortId) ∈ (s.calls 1).getD []
    | _ => True
  | _ => True

instance (s : State c) (e : Event) : Decidable (Harmless s e) := by
  unfold Harmless
  split
  · split <;> infer_instance
  · infer_instance

theorem Harmless.current {e : Event} (h : Harmless s e) : Current s e := by
  rintro n shortId data tasks rfl hn
  simp only [Harmless, hn] at h
  refine h.imp id ?_
  rintro ⟨hne, hmem⟩
  obtain ⟨tasks', htasks', hmem⟩ : ∃ tasks', s.calls 1 = some tasks' ∧
      Task.remove (.urlMapping shortId) ∈ tasks' := by
    cases hcalls : s.calls 1 with
    | none => simp [hcalls] at hmem
    | some tasks' => exact ⟨tasks', rfl, by simpa [hcalls] using hmem⟩
  exact ⟨1, tasks', (Function.update_of_ne hne.symm ..).trans htasks', _, hmem, .inl rfl⟩

theorem urlMapping_agrees_quietRun :
    ∃ s : State 100, Run (step 100 0) Current (.init 100 twoLinks) quietRun s ∧ AtRest s ∧
      s.destination ⟨0, 1⟩ = some "https://new.example" ∧
      s.cache (.urlMapping ⟨0, 1⟩) = some "https://new.example" ∧
      Agrees s s.cache ⟨0, 1⟩ ∧ Agrees s s.cache ⟨0, 2⟩ := by
  have hharmless : Run (step 100 0) Harmless (.init 100 twoLinks) quietRun
      ((quietRun.foldlM (guarded (step 100 0) Harmless) (.init 100 twoLinks)).getD
        (.init 100 twoLinks)) :=
    run_iff_foldlM_guarded.mpr rfl
  have hrun := hharmless.mono fun _ _ => Harmless.current
  have hrest : AtRest ((quietRun.foldlM (guarded (step 100 0) Harmless) (.init 100 twoLinks)).getD
      (.init 100 twoLinks)) := by
    refine ⟨?_, by decide +kernel⟩
    intro n
    match n with
    | 0 => rfl
    | 1 => rfl
    | 2 => rfl
    | 3 => rfl
    | n + 4 => rfl
  exact ⟨_, hrun, hrest, by decide +kernel, by decide +kernel,
    urlMapping_agrees twoLinks hrun hrest ⟨0, 1⟩ rfl,
    urlMapping_agrees twoLinks hrun hrest ⟨0, 2⟩ rfl⟩

/-- A `Redirect` reads the row, an `Update` changes it and invalidates the entry, and only
    then the `Redirect` enqueues the destination it read. -/
def staleRun : List Event :=
  [.redirect 0 ⟨0, 1⟩, .update 1 7 ⟨0, 1⟩ 1 "https://new.example", .enqueue 1, .enqueue 1,
    .enqueue 1, .finish 1] ++ work 3 ++ [.enqueue 0, .enqueue 0, .finish 0] ++ work 2

theorem urlMapping_stale :
    ∃ s, Run (step 100 0) always (.init 100 twoLinks) staleRun s ∧ AtRest s ∧
      s.cache (.urlMapping ⟨0, 1⟩) = some "https://old.example" ∧
      s.destination ⟨0, 1⟩ = some "https://new.example" := by
  have hrun : Run (step 100 0) always (.init 100 twoLinks) staleRun
      ((staleRun.foldlM (step 100 0) (.init 100 twoLinks)).getD (.init 100 twoLinks)) :=
    run_iff_foldlM.mpr rfl
  refine ⟨_, hrun, ⟨?_, by decide +kernel⟩, by decide +kernel, by decide +kernel⟩
  intro n
  match n with
  | 0 => rfl
  | 1 => rfl
  | n + 2 => rfl

end Shortener.Cache
