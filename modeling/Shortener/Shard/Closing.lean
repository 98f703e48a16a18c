import Shortener.Queue.Worker

/-!
# Does a shard only close?

One replica: any number of `UrlService.Create` calls, and the worker that runs the
`ChangeType` items they enqueue. `Create` is cut where other calls get in between
(`Shortener.GrpcBackend/Services/UrlService.cs`, lines 39–75): the check of `Type`, the
`INSERT`, the second read of `Type` with the comparison of the new id, and the call of
`ChangeShardTypeInBackground`. Queue and worker are those of `Queue.Process`.

`ShardService.ChangeType` compares the new type with the current one for equality only,
so the order of the types is kept by the order of the items alone:

* `type_forward`: `Type` only moves forward while no `Create` enqueues `WriteUrlsOnly`
  behind `ReadOnly`.
* `reopens`: a `Create` that read `ReadWrite` long ago does exactly that, and a closed
  shard accepts new URLs again.
-/

namespace Shortener.Shard

open Shortener.Common Shortener.DotNet Shortener.Queue

/-- The order in which the types of a shard are meant to follow each other. -/
def ShardType.rank : ShardType → ℕ
  | .uninitialized => 0
  | .readWrite => 1
  | .writeUrlsOnly => 2
  | .readOnly => 3

namespace Closing

/-! ## State and steps -/

/-- Where a call of `Create` is. -/
inductive Create
  /-- line 41 has let it pass -/
  | checked
  /-- its row is inserted -/
  | inserted (id : ℤ)
  /-- it is about to call `ChangeShardTypeInBackground` -/
  | changing (type : ShardType)
  deriving DecidableEq, Repr

/-- The process, the sequence, and the handlers of `Create`. -/
structure State (c : ℕ) where
  process : Process c
  /-- the last value of the sequence behind `"Url"."Id"`, which all replicas share -/
  sequence : ℤ
  creates : ℕ → Option Create

/-- What can happen next. -/
inductive Event
  /-- Handler `n` starts `Create`. -/
  | create (n : ℕ)
  /-- Its `INSERT` returns `id`; other replicas may have drawn the ids in between. -/
  | insert (n : ℕ) (id : ℤ)
  /-- It reads `Type` for the id it got. -/
  | readType (n : ℕ)
  /-- It calls `ChangeShardTypeInBackground`. -/
  | changeShardType (n : ℕ)
  /-- A step of the queue or the worker, or an item enqueued by another call. -/
  | process (e : Queue.Event)
  deriving DecidableEq, Repr

variable {c : ℕ} {s t : State c} {e : Event} {es es' : List Event}

/-- The process has not started up, and no `Create` is in progress. -/
def State.init (c : ℕ) (sequence : ℤ) : State c := ⟨.init c, sequence, fun _ => none⟩

/-- Handler `n` has come further. -/
def State.setCreate (s : State c) (n : ℕ) (create : Option Create) : State c :=
  { s with creates := Function.update s.creates n create }

@[simp] theorem State.setCreate_process (s : State c) (n : ℕ) (create : Option Create) :
    (s.setCreate n create).process = s.process := rfl

/-- The type a work item changes to. -/
def newType : WorkItem → Option ShardType
  | .changeType type => some type
  | _ => none

/-- The process steps that are no part of `Create`: only `Create` enqueues a `ChangeType`. -/
def IsOther : Queue.Event → Prop
  | .enqueue _ item => newType item = none
  | _ => True

instance : DecidablePred IsOther := fun e => by
  cases e <;> unfold IsOther <;> infer_instance

/-- A step of a handler or of the process. -/
def step (c : ℕ) [NeZero c] (s : State c) : Event → Option (State c)
  | .create n =>
    if s.process.type = .readOnly ∨ s.creates n ≠ none then none
    else some (s.setCreate n (some .checked))
  | .insert n id =>
    if s.creates n = some .checked ∧ s.sequence < id then
      some { s.setCreate n (some (.inserted id)) with sequence := id }
    else none
  | .readType n =>
    match s.creates n with
    | some (.inserted id) =>
      some (s.setCreate n ((thresholdChange s.process.type id).map .changing))
    | _ => none
  | .changeShardType n =>
    match s.creates n with
    | some (.changing type) =>
      (Queue.step c s.process (.enqueue n (.changeType type))).map fun process =>
        { s.setCreate n none with process := process }
    | _ => none
  | .process e =>
    if IsOther e then
      (Queue.step c s.process e).map fun process => { s with process := process }
    else none

/-! ## The types to come -/

/-- The item whose body the worker is in. -/
def running : Worker → Option WorkItem
  | .running item => some item
  | .enqueuing item => some item
  | .delaying oldEphemeralPath => some (.deleteTask oldEphemeralPath)
  | _ => none

/-- The changes the worker is running or will run, in order. -/
def changes (p : Process c) : List ShardType :=
  ((running p.worker).toList ++ p.queue.pending).filterMap newType

/-- `Type`, and what it becomes when all changes succeed. -/
def types (p : Process c) : List ShardType := p.type :: changes p

/-- Enqueued work items come last. -/
theorem changes_enqueue [NeZero c] {p q : Process c} {n : ℕ} {item : WorkItem}
    (hi : Queue.Inv p) (h : Queue.step c p (.enqueue n item) = some q) :
    q.type = p.type ∧ q.startupCompleted = p.startupCompleted ∧
      changes q = changes p ++ (newType item).toList := by
  simp only [Queue.step, Option.ite_none_right_eq_some, Option.some.injEq] at h
  obtain ⟨-, rfl⟩ := h
  refine ⟨rfl, rfl, ?_⟩
  have hp := p.queue.write_pending (.handler n) item
  have hsnd := p.queue.write_snd (.handler n) item
  have hitem : List.filterMap newType [item] = (newType item).toList := by
    cases item <;> rfl
  simp only [changes]
  by_cases hr : p.queue.reader = true
  · -- the worker waits for an item and gets this one
    have hw := hi.reading.mp hr
    rw [if_pos hr] at hsnd
    rw [hsnd] at hp ⊢
    have hrun : running p.worker = none := by rw [hw]; rfl
    rw [hrun, ← hitem, Option.toList_none, List.nil_append, ← List.filterMap_append, ← hp]
    rfl
  · rw [if_neg hr] at hsnd
    rw [hsnd] at hp ⊢
    rw [Option.toList_none, List.nil_append] at hp
    rw [hp, ← hitem, ← List.filterMap_append, List.append_assoc]
    rfl

/-- A worker between two items stays there when an item is enqueued. -/
theorem worker_enqueue [NeZero c] {p q : Process c} {n : ℕ} {item : WorkItem}
    (hi : Queue.Inv p) (h : Queue.step c p (.enqueue n item) = some q) (hw : p.worker = .idle) :
    q.worker = .idle := by
  have hr : ¬ p.queue.reader = true := by
    intro hr
    rw [hi.reading.mp hr] at hw
    cases hw
  simp only [Queue.step, Option.ite_none_right_eq_some, Option.some.injEq] at h
  obtain ⟨-, rfl⟩ := h
  show (p.queue.write (.handler n) item).2.elim p.worker .running = .idle
  rw [p.queue.write_snd, if_neg hr, Option.elim_none, hw]

/-- `workerEnqueues` of a `DeleteTask` adds no change. -/
theorem changes_workerEnqueues (p : Process c) (item : WorkItem) (path : String)
    (hi : Queue.Inv p) (hw : running p.worker = some item) :
    changes (p.workerEnqueues item (.deleteTask path)) = changes p := by
  have hr : ¬ p.queue.reader = true := by
    intro hr
    rw [hi.reading.mp hr] at hw
    cases hw
  have hp := p.queue.write_pending .worker (.deleteTask path)
  rw [p.queue.write_snd, if_neg hr, Option.toList_none, List.nil_append] at hp
  rw [changes, changes, hw]
  simp only [Process.workerEnqueues, hp, running, Option.toList_some, List.filterMap_append]
  simp [newType]

/-- A body that ends without a change of `_type` drops its change, if it had one. -/
theorem types_idle (p : Process c) : (types { p with worker := .idle }).Sublist (types p) := by
  simp only [types, changes, List.filterMap_append]
  exact (List.sublist_append_right _ _).cons_cons _

/-- What the worker does changes no type, drops a change, or carries out the first one. -/
theorem types_step [NeZero c] {p q : Process c} {e : Queue.Event} (hi : Queue.Inv p)
    (h : Queue.step c p e = some q) (he : ∀ n item, e ≠ .enqueue n item)
    (hs : ∀ type path, e ≠ .startup type path) :
    q.startupCompleted = p.startupCompleted ∧ (types q).Sublist (types p) := by
  cases e with
  | startup type path => exact absurd rfl (hs type path)
  | enqueue n item => exact absurd rfl (he n item)
  | dequeue =>
    simp only [Queue.step, Option.ite_none_right_eq_some, Option.some.injEq] at h
    obtain ⟨hw, rfl⟩ := h
    refine ⟨rfl, ?_⟩
    have hp := p.queue.read_pending
    simp only [types, changes, hw.2]
    cases hread : p.queue.read.2 with
    | none => simp [← hp, hread, running]
    | some item => simp [← hp, hread, running]
  | returns =>
    simp only [Queue.step] at h
    split at h
    · simp only [Option.ite_none_right_eq_some, Option.some.injEq] at h
      obtain ⟨-, rfl⟩ := h
      exact ⟨rfl, types_idle p⟩
    · obtain rfl := Option.some.inj h
      exact ⟨rfl, types_idle p⟩
    · cases h
  | throws =>
    simp only [Queue.step] at h
    split at h
    · obtain rfl := Option.some.inj h
      exact ⟨rfl, types_idle p⟩
    · obtain rfl := Option.some.inj h
      exact ⟨rfl, types_idle p⟩
    · cases h
  | createChild path =>
    simp only [Queue.step] at h
    split at h
    · rename_i type hw
      simp only [Option.ite_none_left_eq_some, Option.some.injEq] at h
      obtain ⟨-, rfl⟩ := h
      refine ⟨rfl, ?_⟩
      have hchanges := changes_workerEnqueues { p with shardChildPath := path }
        (.changeType type) p.shardChildPath ⟨hi.enqueuing, hi.reading⟩ (by rw [hw]; rfl)
      rw [types, hchanges]
      exact List.Sublist.refl _
    · cases h
  | keeperException =>
    simp only [Queue.step] at h
    split at h
    · rename_i path hw
      obtain rfl := Option.some.inj h
      exact ⟨rfl, by simp [types, changes, hw, running]⟩
    · cases h
  | delayEnds =>
    simp only [Queue.step] at h
    split at h
    · rename_i path hw
      obtain rfl := Option.some.inj h
      refine ⟨rfl, ?_⟩
      rw [types, changes_workerEnqueues _ _ _ hi (by rw [hw]; rfl)]
      exact List.Sublist.refl _
    · cases h
  | resume =>
    simp only [Queue.step, Option.ite_none_left_eq_some] at h
    obtain ⟨-, h⟩ := h
    split at h
    · rename_i type hw
      obtain rfl := Option.some.inj h
      refine ⟨rfl, ?_⟩
      simp [types, changes, hw, running, newType]
    · obtain rfl := Option.some.inj h
      exact ⟨rfl, types_idle p⟩
    · cases h

/-- Before `Initialize` has ended the worker does nothing. -/
theorem step_before_startup [NeZero c] {p q : Process c} {e : Queue.Event}
    (h : Queue.step c p e = some q) (hs : p.startupCompleted = false) (hw : p.worker = .idle) :
    (∃ n item, e = .enqueue n item) ∨ ∃ type path, e = .startup type path := by
  cases e with
  | enqueue n item => exact .inl ⟨n, item, rfl⟩
  | startup type path => exact .inr ⟨type, path, rfl⟩
  | _ => simp [Queue.step, hs, hw] at h

/-! ## Invariant -/

/-- Before `Initialize` has ended nobody reads another type than `Uninitialized`. -/
structure Starting (s : State c) : Prop where
  type : s.process.type = .uninitialized
  worker : s.process.worker = .idle
  changing : ∀ n type, s.creates n = some (.changing type) → type = .readOnly
  changes : ∀ type ∈ changes s.process, type = .readOnly

/-- Whatever a `Create` is about to enqueue closes the shard, and before startup nothing else is. -/
structure Inv (s : State c) : Prop where
  queue : Queue.Inv s.process
  changing : ∀ n type, s.creates n = some (.changing type) →
    type = .writeUrlsOnly ∨ type = .readOnly
  starting : s.process.startupCompleted = false → Starting s

theorem inv_init (c : ℕ) (sequence : ℤ) : Inv (.init c sequence) :=
  ⟨Queue.inv_init c, by simp [State.init],
    fun _ => ⟨rfl, rfl, by simp [State.init], by simp [State.init, changes, Process.init, running]⟩⟩

/-- The types `Create` asks for. -/
theorem thresholdChange_eq_some {type type' : ShardType} {id : ℤ}
    (h : thresholdChange type id = some type') :
    type' = .writeUrlsOnly ∧ type = .readWrite ∨ type' = .readOnly := by
  unfold thresholdChange at h
  split_ifs at h with h1 h2 h3
  · exact .inl ⟨(Option.some.inj h).symm, h2⟩
  · exact .inr (Option.some.inj h).symm

/-- A change of the calls of `Create` alone keeps the invariant if it adds no call that is
    about to enqueue an unexpected change. -/
theorem Inv.setCreate (hi : Inv s) (n : ℕ) (create : Option Create) (sequence : ℤ)
    (h : ∀ type, create = some (.changing type) →
      (type = .writeUrlsOnly ∧ s.process.type = .readWrite) ∨ type = .readOnly) :
    Inv { s.setCreate n create with sequence := sequence } := by
  have hcreate : ∀ m type, (s.setCreate n create).creates m = some (.changing type) →
      s.creates m = some (.changing type) ∨ create = some (.changing type) := by
    intro m type hm
    by_cases hmn : m = n
    · subst hmn
      simp only [State.setCreate, Function.update_self] at hm
      exact .inr hm
    · simp only [State.setCreate, Function.update_of_ne hmn] at hm
      exact .inl hm
  refine ⟨hi.queue, ?_, ?_⟩
  · intro m type hm
    rcases hcreate m type hm with hm | hm
    · exact hi.changing m type hm
    · exact (h type hm).imp_left And.left
  · intro hs
    have hstart := hi.starting hs
    refine ⟨hstart.type, hstart.worker, ?_, hstart.changes⟩
    intro m type hm
    rcases hcreate m type hm with hm | hm
    · exact hstart.changing m type hm
    · rcases h type hm with ⟨-, hrw⟩ | hro
      · rw [hstart.type] at hrw
        cases hrw
      · exact hro

theorem inv_step [NeZero c] (hi : Inv s) (h : step c s e = some t) : Inv t := by
  cases e with
  | create n =>
    simp only [step, Option.ite_none_left_eq_some, Option.some.injEq] at h
    obtain ⟨-, rfl⟩ := h
    exact hi.setCreate n _ s.sequence (by simp)
  | insert n id =>
    simp only [step, Option.ite_none_right_eq_some, Option.some.injEq] at h
    obtain ⟨-, rfl⟩ := h
    exact hi.setCreate n _ id (by simp)
  | readType n =>
    simp only [step] at h
    split at h
    · rename_i id hn
      obtain rfl := Option.some.inj h
      apply hi.setCreate n _ s.sequence
      intro type htype
      obtain ⟨type', hch, htype'⟩ := Option.map_eq_some_iff.mp htype
      obtain rfl : type' = type := by simpa using htype'
      exact thresholdChange_eq_some hch
    · cases h
  | changeShardType n =>
    simp only [step] at h
    split at h
    · rename_i type hn
      obtain ⟨p, hp, rfl⟩ := Option.map_eq_some_iff.mp h
      obtain ⟨htype, hstarted, hchanges⟩ := changes_enqueue hi.queue hp
      have hi' := hi.setCreate n none s.sequence (by simp)
      refine ⟨Queue.inv_step hi.queue hp, hi'.changing, ?_⟩
      intro hs
      have hs' : s.process.startupCompleted = false := hstarted.symm.trans hs
      have hstart := hi.starting hs'
      refine ⟨htype.trans hstart.type, worker_enqueue hi.queue hp hstart.worker,
        (hi'.starting hs').changing, ?_⟩
      intro type' hmem
      simp only [hchanges, newType, Option.toList_some, List.mem_append, List.mem_singleton] at hmem
      rcases hmem with hmem | rfl
      · exact hstart.changes type' hmem
      · exact hstart.changing n type' hn
    · cases h
  | process e =>
    simp only [step, Option.ite_none_right_eq_some, Option.map_eq_some_iff] at h
    obtain ⟨hother, p, hp, rfl⟩ := h
    refine ⟨Queue.inv_step hi.queue hp, hi.changing, ?_⟩
    intro hs
    by_cases hs' : s.process.startupCompleted = false
    · have hstart := hi.starting hs'
      rcases step_before_startup hp hs' hstart.worker with ⟨n, item, rfl⟩ | ⟨type, path, rfl⟩
      · obtain ⟨htype, -, hchanges⟩ := changes_enqueue hi.queue hp
        refine ⟨htype.trans hstart.type, worker_enqueue hi.queue hp hstart.worker,
          hstart.changing, ?_⟩
        intro type' hmem
        rw [hchanges, show newType item = none from hother] at hmem
        exact hstart.changes type' (by simpa using hmem)
      · simp only [Queue.step, hs', Bool.false_eq_true, if_false, Option.some.injEq] at hp
        rw [← hp] at hs
        cases hs
    · exfalso
      apply hs'
      rw [← hs]
      cases e with
      | enqueue n item => exact (changes_enqueue hi.queue hp).2.1.symm
      | startup type path => simp [Queue.step, hs'] at hp
      | _ => exact (types_step hi.queue hp (by simp) (by simp)).1.symm

/-! ## When the types stay in order -/

/-- The current type and the changes to come move forward. -/
def InOrder (s : State c) : Prop :=
  (types s.process).Pairwise fun type type' => type.rank ≤ type'.rank

/-- No `Create` enqueues `WriteUrlsOnly` while `Type` is `ReadOnly` or a change to
    `ReadOnly` is waiting or running. -/
def KeepsOrder (s : State c) : Event → Prop
  | .changeShardType n =>
    s.creates n = some (.changing .writeUrlsOnly) → .readOnly ∉ types s.process
  | _ => True

instance (s : State c) : DecidablePred (KeepsOrder s) := fun e => by
  cases e <;> unfold KeepsOrder <;> infer_instance

theorem rank_le_readOnly (type : ShardType) : type.rank ≤ ShardType.readOnly.rank := by
  cases type <;> decide

theorem rank_le_writeUrlsOnly {type : ShardType} :
    type.rank ≤ ShardType.writeUrlsOnly.rank ↔ type ≠ .readOnly := by
  cases type <;> decide

/-- A step puts a change behind the others, drops types from the list, or ends
    `Initialize`. -/
theorem step_cases [NeZero c] (hi : Inv s) (h : step c s e = some t) :
    (∃ n type, e = .changeShardType n ∧ s.creates n = some (.changing type) ∧
      t.process.type = s.process.type ∧ types t.process = types s.process ++ [type]) ∨
    (KeepsOrder s e ∧ (types t.process).Sublist (types s.process)) ∨
    (KeepsOrder s e ∧ s.process.startupCompleted = false ∧
      changes t.process = changes s.process) := by
  cases e with
  | create n =>
    simp only [step, Option.ite_none_left_eq_some, Option.some.injEq] at h
    obtain ⟨-, rfl⟩ := h
    exact .inr (.inl ⟨trivial, List.Sublist.refl _⟩)
  | insert n id =>
    simp only [step, Option.ite_none_right_eq_some, Option.some.injEq] at h
    obtain ⟨-, rfl⟩ := h
    exact .inr (.inl ⟨trivial, List.Sublist.refl _⟩)
  | readType n =>
    simp only [step] at h
    split at h
    · obtain rfl := Option.some.inj h
      exact .inr (.inl ⟨trivial, List.Sublist.refl _⟩)
    · cases h
  | changeShardType n =>
    simp only [step] at h
    split at h
    · rename_i type hn
      obtain ⟨p, hp, rfl⟩ := Option.map_eq_some_iff.mp h
      obtain ⟨htype, -, hchanges⟩ := changes_enqueue hi.queue hp
      refine .inl ⟨n, type, rfl, hn, htype, ?_⟩
      show types p = types s.process ++ [type]
      rw [types, htype, hchanges]
      rfl
    · cases h
  | process e =>
    simp only [step, Option.ite_none_right_eq_some, Option.map_eq_some_iff] at h
    obtain ⟨hother, p, hp, rfl⟩ := h
    cases e with
    | enqueue n item =>
      obtain ⟨htype, -, hchanges⟩ := changes_enqueue hi.queue hp
      refine .inr (.inl ⟨trivial, ?_⟩)
      show (types p).Sublist (types s.process)
      rw [types, htype, hchanges, show newType item = none from hother, Option.toList_none,
        List.append_nil]
      exact List.Sublist.refl _
    | startup type path =>
      simp only [Queue.step, Option.ite_none_left_eq_some, Option.some.injEq] at hp
      obtain ⟨hs, rfl⟩ := hp
      exact .inr (.inr ⟨trivial, by simpa using hs, rfl⟩)
    | _ => exact .inr (.inl ⟨trivial, (types_step hi.queue hp (by simp) (by simp)).2⟩)

/-- **Step.** A step keeps the order exactly if it meets the condition. -/
theorem inOrder_step [NeZero c] (hi : Inv s) (ho : InOrder s) (h : step c s e = some t) :
    InOrder t ↔ KeepsOrder s e := by
  rcases step_cases hi h with ⟨n, type, rfl, hn, -, htypes⟩ | ⟨hk, hsub⟩ | ⟨hk, hs, hchanges⟩
  · have horder : InOrder t ↔ ∀ type' ∈ types s.process, type'.rank ≤ type.rank := by
      rw [InOrder, htypes, List.pairwise_append]
      simp only [List.pairwise_singleton, true_and, List.mem_singleton, forall_eq]
      exact and_iff_right ho
    rw [horder, KeepsOrder, hn]
    rcases hi.changing n type hn with rfl | rfl
    · simp only [rank_le_writeUrlsOnly]
      constructor
      · intro h _ hmem
        exact h _ hmem rfl
      · intro h type' hmem heq
        exact h trivial (heq ▸ hmem)
    · exact iff_of_true (fun type' _ => rank_le_readOnly type') (by simp)
  · exact iff_of_true (ho.sublist hsub) hk
  · apply iff_of_true _ hk
    rw [InOrder, types, hchanges]
    apply List.Pairwise.cons _ (List.Pairwise.of_cons ho)
    intro type' hmem
    rw [(hi.starting hs).changes type' hmem]
    exact rank_le_readOnly _

/-- While the types are in order, a step moves `Type` forward. -/
theorem rank_type_step [NeZero c] (hi : Inv s) (ho : InOrder s) (h : step c s e = some t) :
    s.process.type.rank ≤ t.process.type.rank := by
  rcases step_cases hi h with ⟨n, type, -, -, htype, -⟩ | ⟨-, hsub⟩ | ⟨-, hs, -⟩
  · rw [htype]
  · -- the new type is among the types that were in order
    have hmem : t.process.type ∈ types s.process := hsub.subset List.mem_cons_self
    rcases List.mem_cons.mp hmem with heq | hmem
    · rw [heq]
    · exact List.rel_of_pairwise_cons ho hmem
  · rw [(hi.starting hs).type]
    exact Nat.zero_le _

/-- The types are in order in every state of a run exactly if its steps meet the condition. -/
theorem inOrder_iff [NeZero c] {sequence : ℤ} :
    Run (step c) (fun s _ => InOrder s) (.init c sequence) es t ∧ InOrder t ↔
      Run (step c) KeepsOrder (.init c sequence) es t :=
  Run.everywhere_iff Inv (inv_init c sequence)
    (by simp [InOrder, types, changes, State.init, Process.init, running])
    (fun _ _ _ hi h => inv_step hi h) fun _ _ _ hi ho h => inOrder_step hi ho h

/-- **A shard only closes**, as long as no `Create` enqueues a change out of order. -/
theorem type_forward [NeZero c] {sequence : ℤ} (h : Run (step c) KeepsOrder (.init c sequence) es s)
    (h' : Run (step c) KeepsOrder s es' t) : s.process.type.rank ≤ t.process.type.rank := by
  have hs := (inOrder_iff.mpr h).2
  have hi : Inv s := h.invariant (inv_init c sequence) fun _ _ _ hi _ h => inv_step hi h
  have hgoal : Inv t ∧ InOrder t ∧ s.process.type.rank ≤ t.process.type.rank := by
    apply h'.invariant ⟨hi, hs, le_rfl⟩
    intro t e u ht hk hu
    obtain ⟨hi, ho, hle⟩ := ht
    exact ⟨inv_step hi hu, (inOrder_step hi ho hu).mpr hk, hle.trans (rank_type_step hi ho hu)⟩
  exact hgoal.2.2

/-! ## A shard that opens again -/

/-- Three calls of `Create` get the ids 9000000, 9000001 and 9500000. The first one has
    read `ReadWrite` and not enqueued its change when the others' changes are carried out. -/
def closingRun : List Event :=
  [.process (.startup .readWrite "/shards/1_backend-0_ReadWrite_0000000000"),
    .create 0, .insert 0 9000000, .readType 0,
    .create 1, .insert 1 9000001, .readType 1, .changeShardType 1,
    .process .dequeue, .process (.createChild "/shards/1_backend-0_WriteUrlsOnly_0000000001"),
    .process .resume, .process .dequeue, .process .returns,
    .create 2, .insert 2 9500000, .readType 2, .changeShardType 2,
    .process .dequeue, .process (.createChild "/shards/1_backend-0_ReadOnly_0000000002"),
    .process .resume, .process .dequeue, .process .returns]

theorem type_forward_closingRun :
    ∃ s t : State 100, s.process.type = .readWrite ∧ t.process.type = .readOnly ∧
      s.process.type.rank ≤ t.process.type.rank := by
  have hopen : ((closingRun.take 1).foldlM (guarded (step 100) KeepsOrder)
      (.init 100 8999999)).map (·.process.type) = some .readWrite := by
    decide +kernel
  have hclosed : ((closingRun.take 1 ++ closingRun.drop 1).foldlM
      (guarded (step 100) KeepsOrder) (.init 100 8999999)).map (·.process.type) =
        some .readOnly := by
    decide +kernel
  obtain ⟨s, hs, hstype⟩ := Option.map_eq_some_iff.mp hopen
  obtain ⟨t, ht, httype⟩ := Option.map_eq_some_iff.mp hclosed
  rw [List.foldlM_append, hs] at ht
  exact ⟨s, t, hstype, httype,
    type_forward (run_iff_foldlM_guarded.mpr hs) (run_iff_foldlM_guarded.mpr ht)⟩

/-- Now the first one enqueues it. -/
def reopeningRun : List Event :=
  [.changeShardType 0,
    .process .dequeue, .process (.createChild "/shards/1_backend-0_WriteUrlsOnly_0000000003"),
    .process .resume, .process .dequeue, .process .returns]

/-- No work item throws. -/
def Succeeds : Event → Prop
  | .process .throws => False
  | .process .keeperException => False
  | _ => True

/-- **A closed shard opens again.** -/
theorem reopens :
    ∃ s t, Run (step 100) always (.init 100 8999999) closingRun s ∧
      Run (step 100) always s reopeningRun t ∧ (∀ e ∈ closingRun ++ reopeningRun, Succeeds e) ∧
      s.process.type = .readOnly ∧ t.process.type = .writeUrlsOnly := by
  have hclosing : (closingRun.foldlM (step 100) (.init 100 8999999)).map (·.process.type) =
      some .readOnly := by
    decide +kernel
  have hreopening : ((closingRun ++ reopeningRun).foldlM (step 100) (.init 100 8999999)).map
      (·.process.type) = some .writeUrlsOnly := by
    decide +kernel
  obtain ⟨s, hs, hstype⟩ := Option.map_eq_some_iff.mp hclosing
  obtain ⟨t, ht, httype⟩ := Option.map_eq_some_iff.mp hreopening
  rw [List.foldlM_append, hs] at ht
  exact ⟨s, t, run_iff_foldlM.mpr hs, run_iff_foldlM.mpr ht,
    by simp [closingRun, reopeningRun, Succeeds], hstype, httype⟩

end Closing

end Shortener.Shard
