import Shortener.Common.Run
import Shortener.Shard.ChildNode

/-!
# A replica in the shard registry

`ShardService.ChangeType` and `DeleteOldEphemeralPathInBackground`
(`Shortener.GrpcBackend/Services/ShardService.cs`, lines 55–142) on one replica: any number of
callers, one at a time inside the lock, and the `DeleteTask`s of earlier changes, which run in
any order. A create or a delete at ZooKeeper is one step, and sequential names are fresh.

* `Inv.step`: the node of the replica exists, and nothing is about to delete it.
* `stays_registered`: so it is in every run, and when nothing is under way it is the only one and
  shows the current type.
-/

namespace Shortener.Shard.Registry

open Shortener.Common Shortener.DotNet

/-! ## State and steps -/

/-- The settings of a replica. -/
structure Replica where
  id : ℤ
  /-- `SHARD_ID` is parsed as a `long`. -/
  id_valid : IsInt64 id
  shardParentPath : String

/-- The name of the node of a replica. -/
def Replica.nodeName (r : Replica) : String := "backend" ++ toString r.id

/-- The path of the node of a replica with this type. -/
def Replica.ephemeralPath (r : Replica) (type : ShardType) : String :=
  getEphemeralPath r.shardParentPath r.id r.nodeName type

/-- Where the call of `ChangeType` that holds `_lock` is. -/
inductive Holder
  | entered (newType : ShardType)
  /-- it calls `CreateChildEphemeral` -/
  | creating (newType : ShardType) (oldEphemeralPath : String)
  /-- ZooKeeper has created a node -/
  | created (newType : ShardType) (oldEphemeralPath path : String)
  /-- `_shardChildPath` is set -/
  | assigned (newType : ShardType) (oldEphemeralPath : String)
  /-- the `DeleteTask` is in the queue -/
  | queued (newType : ShardType)
  /-- in `finally` -/
  | leaving
  deriving DecidableEq, Repr

/-- The fields of the service, its nodes, and the calls in progress. -/
structure State where
  type : ShardType
  shardChildPath : String
  /-- the ephemeral nodes of the replica -/
  nodes : Finset String
  /-- the paths that ZooKeeper has ever given to it -/
  given : Finset String
  /-- the calls of `ChangeType` that have passed the first comparison -/
  waiting : List ShardType
  holder : Option Holder
  /-- the pending `DeleteTask`s: in the queue, running or in their delay -/
  deleteTasks : List String

/-- After `Initialize`. -/
def State.initialized (r : Replica) (type : ShardType) (suffix : String) : State :=
  let path := r.ephemeralPath type ++ suffix
  ⟨type, path, {path}, {path}, [], none, []⟩

/-- What can happen next. -/
inductive Event
  /-- `ChangeType` is called. -/
  | changeType (newType : ShardType)
  /-- Waiting call `i` gets the lock. -/
  | waitAsync (i : ℕ)
  /-- The second comparison of the types. -/
  | compare
  /-- `CreateChildEphemeral`; ZooKeeper appends `suffix`. -/
  | createChildEphemeral (suffix : String)
  /-- `CreateChildEphemeral` throws, and has no effect then: creates are taken to be atomic. A
      create whose reply is lost would leave a node that nobody deletes. -/
  | createChildEphemeralThrows
  /-- `_shardChildPath` is set. -/
  | setPath
  /-- The `DeleteTask` of the old node is enqueued. -/
  | queueDeleteTask
  /-- `Type` is set. -/
  | setType
  /-- `_lock.Release()`. -/
  | release
  /-- `DeleteTask` `k` deletes its node, if there still is one. -/
  | delete (k : ℕ)
  /-- It throws a `KeeperException`, with or without effect, and is queued again. -/
  | deleteThrows (k : ℕ) (deleted : Bool)
  deriving DecidableEq, Repr

/-- A step of the service of a replica. -/
def step (r : Replica) (s : State) : Event → Option State
  | .changeType newType =>
    if s.type = newType then some s else some { s with waiting := s.waiting ++ [newType] }
  | .waitAsync i =>
    match s.holder, s.waiting[i]? with
    | none, some newType =>
      some { s with holder := some (.entered newType), waiting := s.waiting.eraseIdx i }
    | _, _ => none
  | .compare =>
    match s.holder with
    | some (.entered newType) =>
      if s.type = newType then some { s with holder := some .leaving }
      else some { s with holder := some (.creating newType s.shardChildPath) }
    | _ => none
  | .createChildEphemeral suffix =>
    match s.holder with
    | some (.creating newType oldEphemeralPath) =>
      let path := r.ephemeralPath newType ++ suffix
      if '_' ∉ suffix.toList ∧ path ∉ s.given then
        some { s with
          nodes := insert path s.nodes
          given := insert path s.given
          holder := some (.created newType oldEphemeralPath path) }
      else none
    | _ => none
  | .createChildEphemeralThrows =>
    match s.holder with
    | some (.creating _ _) => some { s with holder := some .leaving }
    | _ => none
  | .setPath =>
    match s.holder with
    | some (.created newType oldEphemeralPath path) =>
      some { s with shardChildPath := path, holder := some (.assigned newType oldEphemeralPath) }
    | _ => none
  | .queueDeleteTask =>
    match s.holder with
    | some (.assigned newType oldEphemeralPath) =>
      some { s with
        deleteTasks := s.deleteTasks ++ [oldEphemeralPath]
        holder := some (.queued newType) }
    | _ => none
  | .setType =>
    match s.holder with
    | some (.queued newType) => some { s with type := newType, holder := some .leaving }
    | _ => none
  | .release =>
    match s.holder with
    | some .leaving => some { s with holder := none }
    | _ => none
  | .delete k =>
    match s.deleteTasks[k]? with
    | some oldEphemeralPath =>
      some { s with
        nodes := s.nodes.erase oldEphemeralPath
        deleteTasks := s.deleteTasks.eraseIdx k }
    | none => none
  | .deleteThrows k deleted =>
    match s.deleteTasks[k]? with
    | some oldEphemeralPath =>
      some { s with
        nodes := if deleted then s.nodes.erase oldEphemeralPath else s.nodes
        deleteTasks := s.deleteTasks.eraseIdx k ++ [oldEphemeralPath] }
    | none => none

/-! ## The invariant -/

/-- The path was given for this type. -/
def Named (r : Replica) (path : String) (type : ShardType) : Prop :=
  ∃ suffix, '_' ∉ suffix.toList ∧ path = r.ephemeralPath type ++ suffix

/-- The type in the name of the node; it is ahead of `_type` until `ChangeType` is done. -/
def State.nodeType (s : State) : ShardType :=
  match s.holder with
  | some (.assigned newType _) => newType
  | some (.queued newType) => newType
  | _ => s.type

/-- The node that the holder of the lock has not yet passed on. -/
def State.held (s : State) : Option String :=
  match s.holder with
  | some (.created _ _ path) => some path
  | some (.assigned _ oldEphemeralPath) => some oldEphemeralPath
  | _ => none

/-- What the holder of the lock knows. -/
def HolderInv (r : Replica) (s : State) : Prop :=
  match s.holder with
  | some (.creating _ oldEphemeralPath) => oldEphemeralPath = s.shardChildPath
  | some (.created newType oldEphemeralPath path) =>
    oldEphemeralPath = s.shardChildPath ∧ path ∈ s.nodes ∧ path ≠ s.shardChildPath ∧
      path ∉ s.deleteTasks ∧ Named r path newType
  | some (.assigned _ oldEphemeralPath) =>
    oldEphemeralPath ≠ s.shardChildPath ∧ oldEphemeralPath ∈ s.given
  | _ => True

/-- `_shardChildPath` is a node of the replica, and nothing is going to delete it. -/
structure Inv (r : Replica) (s : State) : Prop where
  registered : s.shardChildPath ∈ s.nodes
  not_deleted : s.shardChildPath ∉ s.deleteTasks
  named : Named r s.shardChildPath s.nodeType
  /-- Every other node has a `DeleteTask` or is in the hands of the holder of the lock. -/
  others : ∀ path ∈ s.nodes, path = s.shardChildPath ∨ path ∈ s.deleteTasks ∨ s.held = some path
  given : ∀ path, path ∈ s.nodes ∨ path ∈ s.deleteTasks → path ∈ s.given
  holder : HolderInv r s

variable {r : Replica} {s t : State} {e : Event} {es : List Event}

theorem inv_initialized {type : ShardType} {suffix : String} (hsuffix : '_' ∉ suffix.toList) :
    Inv r (.initialized r type suffix) where
  registered := Finset.mem_singleton_self _
  not_deleted := List.not_mem_nil
  named := ⟨suffix, hsuffix, rfl⟩
  others := fun _ hpath => .inl (Finset.mem_singleton.mp hpath)
  given := by
    rintro path (hpath | hpath)
    · exact hpath
    · cases hpath
  holder := trivial

/-- A task that is not task `k` remains. -/
theorem mem_eraseIdx_of_ne {tasks : List String} {k : ℕ} {task path : String}
    (hk : tasks[k]? = some task) (hpath : path ∈ tasks) (hne : path ≠ task) :
    path ∈ tasks.eraseIdx k := by
  obtain ⟨i, hi⟩ := List.mem_iff_getElem?.mp hpath
  refine List.mem_eraseIdx_iff_getElem?.mpr ⟨i, ?_, hi⟩
  rintro rfl
  rw [hk] at hi
  exact hne (Option.some.inj hi).symm

/-- A `DeleteTask` touches no node that has none. -/
theorem Inv.delete (hi : Inv r s) {k : ℕ} {task : String} (hk : s.deleteTasks[k]? = some task)
    {nodes : Finset String} (hsub : nodes ⊆ s.nodes)
    (hkept : ∀ path ∈ s.nodes, path ≠ task → path ∈ nodes) {tasks : List String}
    (htasks : ∀ path ∈ tasks, path ∈ s.deleteTasks)
    (hpending : ∀ path ∈ nodes, path ∈ s.deleteTasks → path ∈ tasks) :
    Inv r { s with nodes := nodes, deleteTasks := tasks } := by
  have htask : task ∈ s.deleteTasks := List.mem_of_getElem? hk
  refine ⟨?_, ?_, hi.named, ?_, ?_, ?_⟩
  · apply hkept _ hi.registered
    rintro rfl
    exact hi.not_deleted htask
  · exact fun hpath => hi.not_deleted (htasks _ hpath)
  · intro path hpath
    rcases hi.others path (hsub hpath) with h | h | h
    · exact .inl h
    · exact .inr (.inl (hpending path hpath h))
    · exact .inr (.inr h)
  · rintro path (hpath | hpath)
    · exact hi.given path (.inl (hsub hpath))
    · exact hi.given path (.inr (htasks path hpath))
  · have hholder := hi.holder
    unfold HolderInv at hholder ⊢
    cases hs : s.holder with
    | none => trivial
    | some holder =>
      cases holder with
      | created newType old path =>
        rw [hs] at hholder
        obtain ⟨hold, hmem, hne, hnot, hnamed⟩ := hholder
        refine ⟨hold, ?_, hne, fun hpath => hnot (htasks _ hpath), hnamed⟩
        apply hkept _ hmem
        rintro rfl
        exact hnot htask
      | _ =>
        rw [hs] at hholder
        exact hholder

/-- The holder of the lock goes on, and neither the nodes nor the tasks change. -/
theorem Inv.moveHolder (hi : Inv r s) {type : ShardType} {waiting : List ShardType}
    {holder : Option Holder}
    (htype : State.nodeType { s with type := type, waiting := waiting, holder := holder } = s.nodeType)
    (hheld : State.held { s with type := type, waiting := waiting, holder := holder } = s.held)
    (hholder : HolderInv r { s with type := type, waiting := waiting, holder := holder }) :
    Inv r { s with type := type, waiting := waiting, holder := holder } := by
  refine ⟨hi.registered, hi.not_deleted, ?_, ?_, hi.given, hholder⟩
  · rw [htype]
    exact hi.named
  · rw [hheld]
    exact hi.others

/-- ZooKeeper creates a node; the holder of the lock has its path. -/
theorem Inv.createChildEphemeral (hi : Inv r s) {newType : ShardType} {old suffix : String}
    (hs : s.holder = some (.creating newType old)) (hsuffix : '_' ∉ suffix.toList)
    (hfresh : r.ephemeralPath newType ++ suffix ∉ s.given) :
    Inv r { s with
      nodes := insert (r.ephemeralPath newType ++ suffix) s.nodes
      given := insert (r.ephemeralPath newType ++ suffix) s.given
      holder := some (.created newType old (r.ephemeralPath newType ++ suffix)) } := by
  obtain ⟨hreg, hnot, hnamed, hothers, hgiven, hholder⟩ := hi
  simp only [State.nodeType, State.held, hs] at hnamed hothers
  simp only [HolderInv, hs] at hholder
  refine ⟨Finset.mem_insert_of_mem hreg, hnot, hnamed, ?_, ?_, ?_⟩
  · intro path hpath
    rcases Finset.mem_insert.mp hpath with rfl | hpath
    · exact .inr (.inr rfl)
    · rcases hothers path hpath with h | h | h
      · exact .inl h
      · exact .inr (.inl h)
      · cases h
  · rintro path (hpath | hpath)
    · rcases Finset.mem_insert.mp hpath with rfl | hpath
      · exact Finset.mem_insert_self _ _
      · exact Finset.mem_insert_of_mem (hgiven path (.inl hpath))
    · exact Finset.mem_insert_of_mem (hgiven path (.inr hpath))
  · -- a fresh path is neither the current one nor one of a pending task
    refine ⟨hholder, Finset.mem_insert_self _ _, ?_, ?_, suffix, hsuffix, rfl⟩
    · intro heq
      apply hfresh
      rw [heq]
      exact hgiven _ (.inl hreg)
    · exact fun hpath => hfresh (hgiven _ (.inr hpath))

/-- The new path replaces the old one, which the holder of the lock still has. -/
theorem Inv.setPath (hi : Inv r s) {newType : ShardType} {old path : String}
    (hs : s.holder = some (.created newType old path)) :
    Inv r { s with shardChildPath := path, holder := some (.assigned newType old) } := by
  obtain ⟨hreg, hnot, hnamed, hothers, hgiven, hholder⟩ := hi
  simp only [State.held, hs] at hothers
  simp only [HolderInv, hs] at hholder
  obtain ⟨rfl, hmem, hne, hnot', hnamed'⟩ := hholder
  refine ⟨hmem, hnot', hnamed', ?_, hgiven, hne.symm, hgiven _ (.inl hreg)⟩
  intro path' hpath'
  rcases hothers path' hpath' with rfl | h | h
  · exact .inr (.inr rfl)
  · exact .inr (.inl h)
  · exact .inl (Option.some.inj h).symm

/-- It passes the old path on to a `DeleteTask`. -/
theorem Inv.queueDeleteTask (hi : Inv r s) {newType : ShardType} {old : String}
    (hs : s.holder = some (.assigned newType old)) :
    Inv r { s with deleteTasks := s.deleteTasks ++ [old], holder := some (.queued newType) } := by
  obtain ⟨hreg, hnot, hnamed, hothers, hgiven, hholder⟩ := hi
  simp only [State.nodeType, State.held, hs] at hnamed hothers
  simp only [HolderInv, hs] at hholder
  obtain ⟨hne, hold⟩ := hholder
  refine ⟨hreg, ?_, hnamed, ?_, ?_, trivial⟩
  · intro hpath
    rcases List.mem_append.mp hpath with hpath | hpath
    · exact hnot hpath
    · exact hne (List.mem_singleton.mp hpath).symm
  · intro path hpath
    rcases hothers path hpath with h | h | h
    · exact .inl h
    · exact .inr (.inl (List.mem_append_left _ h))
    · obtain rfl := Option.some.inj h
      exact .inr (.inl (List.mem_append_right _ (List.mem_singleton_self _)))
  · rintro path (hpath | hpath)
    · exact hgiven path (.inl hpath)
    · rcases List.mem_append.mp hpath with hpath | hpath
      · exact hgiven path (.inr hpath)
      · rwa [List.mem_singleton.mp hpath]

theorem Inv.step (hi : Inv r s) (h : step r s e = some t) : Inv r t := by
  cases e with
  | changeType newType =>
    simp only [Registry.step] at h
    split_ifs at h
    · obtain rfl := Option.some.inj h
      exact hi
    · obtain rfl := Option.some.inj h
      exact hi.moveHolder rfl rfl hi.holder
  | waitAsync i =>
    simp only [Registry.step] at h
    split at h
    · rename_i newType hs _
      obtain rfl := Option.some.inj h
      exact hi.moveHolder (by simp [State.nodeType, hs]) (by simp [State.held, hs]) trivial
    · cases h
  | compare =>
    simp only [Registry.step] at h
    split at h
    · rename_i newType hs
      split_ifs at h
      · obtain rfl := Option.some.inj h
        exact hi.moveHolder (by simp [State.nodeType, hs]) (by simp [State.held, hs]) trivial
      · obtain rfl := Option.some.inj h
        exact hi.moveHolder (by simp [State.nodeType, hs]) (by simp [State.held, hs]) rfl
    · cases h
  | createChildEphemeral suffix =>
    simp only [Registry.step] at h
    split at h
    · rename_i newType old hs
      split_ifs at h with hfresh
      obtain rfl := Option.some.inj h
      exact hi.createChildEphemeral hs hfresh.1 hfresh.2
    · cases h
  | createChildEphemeralThrows =>
    simp only [Registry.step] at h
    split at h
    · rename_i hs
      obtain rfl := Option.some.inj h
      exact hi.moveHolder (by simp [State.nodeType, hs]) (by simp [State.held, hs]) trivial
    · cases h
  | setPath =>
    simp only [Registry.step] at h
    split at h
    · rename_i newType old path hs
      obtain rfl := Option.some.inj h
      exact hi.setPath hs
    · cases h
  | queueDeleteTask =>
    simp only [Registry.step] at h
    split at h
    · rename_i newType old hs
      obtain rfl := Option.some.inj h
      exact hi.queueDeleteTask hs
    · cases h
  | setType =>
    simp only [Registry.step] at h
    split at h
    · rename_i newType hs
      obtain rfl := Option.some.inj h
      exact hi.moveHolder (by simp [State.nodeType, hs]) (by simp [State.held, hs]) trivial
    · cases h
  | release =>
    simp only [Registry.step] at h
    split at h
    · rename_i hs
      obtain rfl := Option.some.inj h
      exact hi.moveHolder (by simp [State.nodeType, hs]) (by simp [State.held, hs]) trivial
    · cases h
  | delete k =>
    simp only [Registry.step] at h
    split at h
    · rename_i task hk
      obtain rfl := Option.some.inj h
      apply hi.delete hk (Finset.erase_subset _ _)
      · exact fun path hpath hne => Finset.mem_erase.mpr ⟨hne, hpath⟩
      · exact fun path hpath => List.mem_of_mem_eraseIdx hpath
      · exact fun path hpath htask => mem_eraseIdx_of_ne hk htask (Finset.ne_of_mem_erase hpath)
    · cases h
  | deleteThrows k deleted =>
    simp only [Registry.step] at h
    split at h
    · rename_i task hk
      obtain rfl := Option.some.inj h
      apply hi.delete hk
      · split_ifs
        · exact Finset.erase_subset _ _
        · exact Finset.Subset.refl _
      · intro path hpath hne
        split_ifs
        · exact Finset.mem_erase.mpr ⟨hne, hpath⟩
        · exact hpath
      · intro path hpath
        rcases List.mem_append.mp hpath with hpath | hpath
        · exact List.mem_of_mem_eraseIdx hpath
        · rw [List.mem_singleton.mp hpath]
          exact List.mem_of_getElem? hk
      · intro path _ htask
        by_cases hne : path = task
        · exact List.mem_append_right _ (List.mem_singleton.mpr hne)
        · exact List.mem_append_left _ (mem_eraseIdx_of_ne hk htask hne)
    · cases h

theorem inv_run {type : ShardType} {suffix : String} (hsuffix : '_' ∉ suffix.toList)
    (h : Run (Registry.step r) always (.initialized r type suffix) es s) : Inv r s :=
  h.invariant (inv_initialized hsuffix) fun _ _ _ hi _ hs => hi.step hs

/-! ## Every run -/

/-- No `ChangeType` is in progress and no `DeleteTask` is pending. -/
def State.Idle (s : State) : Prop := s.waiting = [] ∧ s.holder = none ∧ s.deleteTasks = []

theorem underscore_not_mem_nodeName (r : Replica) : '_' ∉ r.nodeName.toList := by
  intro h
  rw [Replica.nodeName, String.toList_append, List.mem_append] at h
  rcases h with h | h
  · exact absurd h (by decide)
  · exact underscore_not_mem_toString _ h

/-- The frontends read the type from the name of the node. -/
theorem Named.parse {path : String} {type : ShardType} (h : Named r path type) :
    ∃ name, path = r.shardParentPath ++ "/" ++ name ∧
      parseChildNode name = some ⟨r.nodeName, r.id, type⟩ := by
  obtain ⟨suffix, hsuffix, rfl⟩ := h
  exact ⟨_, getEphemeralPath_append _ _ _ _ _,
    parseChildNode_ephemeralName r.id_valid (underscore_not_mem_nodeName r) hsuffix type⟩

/-- **A replica stays registered.** -/
theorem stays_registered {type : ShardType} {suffix : String} (hsuffix : '_' ∉ suffix.toList)
    (h : Run (Registry.step r) always (.initialized r type suffix) es s) :
    s.shardChildPath ∈ s.nodes ∧ s.shardChildPath ∉ s.deleteTasks ∧
      (s.Idle → s.nodes = {s.shardChildPath} ∧
        ∃ name, s.shardChildPath = r.shardParentPath ++ "/" ++ name ∧
          parseChildNode name = some ⟨r.nodeName, r.id, s.type⟩) := by
  have hi := inv_run hsuffix h
  refine ⟨hi.registered, hi.not_deleted, ?_⟩
  intro hidle
  obtain ⟨-, hholder, htasks⟩ := hidle
  constructor
  · ext path
    rw [Finset.mem_singleton]
    constructor
    · intro hpath
      rcases hi.others path hpath with h | h | h
      · exact h
      · rw [htasks] at h
        cases h
      · simp only [State.held, hholder, reduceCtorEq] at h
    · rintro rfl
      exact hi.registered
  · have hnamed := hi.named
    simp only [State.nodeType, hholder] at hnamed
    exact hnamed.parse

/-- The backend of shard 1. -/
def backend1 : Replica := ⟨1, by decide, "/shards"⟩

/-- A create fails, the next one succeeds, and the deletion of the old node fails once. -/
def retries : List Event :=
  [.changeType .readOnly, .changeType .writeUrlsOnly, .waitAsync 0, .compare,
    .createChildEphemeralThrows, .release, .waitAsync 0, .compare, .createChildEphemeral "0000000001",
    .setPath, .queueDeleteTask, .deleteThrows 0 false, .setType, .delete 0, .release]

theorem stays_registered_retries :
    ∃ s, Run (Registry.step backend1) always (.initialized backend1 .readWrite "0000000000") retries s ∧
      s.type = .writeUrlsOnly ∧ s.nodes = {s.shardChildPath} ∧
      s.shardChildPath ∉ s.deleteTasks := by
  have hrun : ((retries.foldlM (Registry.step backend1)
      (.initialized backend1 .readWrite "0000000000")).map fun s =>
        (s.waiting, s.holder, s.deleteTasks, s.type)) = some ([], none, [], .writeUrlsOnly) := by
    decide +kernel
  obtain ⟨s, hs, h⟩ := Option.map_eq_some_iff.mp hrun
  obtain ⟨hwaiting, h⟩ := Prod.mk.inj h
  obtain ⟨hholder, h⟩ := Prod.mk.inj h
  obtain ⟨htasks, htype⟩ := Prod.mk.inj h
  obtain ⟨-, hnot, hnodes⟩ := stays_registered (by decide) (run_iff_foldlM.mpr hs)
  exact ⟨s, run_iff_foldlM.mpr hs, htype, (hnodes ⟨hwaiting, hholder, htasks⟩).1, hnot⟩

end Shortener.Shard.Registry
