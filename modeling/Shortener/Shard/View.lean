import Shortener.Common.Run
import Shortener.Shard.ChildNode

/-!
# What a frontend knows of the shards

`ShardService` of the frontends (`Shortener.Shared/Services/ShardService.cs`, lines 57–236).
`Initialize` subscribes to the children of the shard path, reads them, and calls `UpdateShards`
with what it has read. The handler calls `UpdateShards` once for each later change, with the
children at some time after the change, in the order of the changes.

* `updateShards_eq_iff`: which shards are online and open for users and URLs decides the sets.
* `view_converges`: with no handler call outstanding the sets belong to the current children, if
  `Initialize` writes nothing older than the handler. `converges_iff`: that is needed, too.
* `stale_view`: nothing makes it so, and the sets stay wrong until the next change.
-/

namespace Shortener.Shard.Frontend

open Shortener.Common

/-! ## The sets -/

/-- The fields that `UpdateShards` writes. -/
structure View where
  onlineShardSet : Finset ℤ
  shardIdsForNewUsers : Finset ℤ
  shardIdsForNewUrls : Finset ℤ
  deriving DecidableEq

/-- The view before the first update. -/
def View.empty : View := ⟨∅, ∅, ∅⟩

/-- `IsOnline`. -/
def View.isOnline (v : View) (shardId : ℤ) : Bool := shardId ∈ v.onlineShardSet

/-- `GetShardIdForNewUser`; `next` picks an element. -/
def View.getShardIdForNewUser (v : View) (next : Finset ℤ → ℤ) : Option ℤ :=
  if v.shardIdsForNewUsers.card = 0 then none else some (next v.shardIdsForNewUsers)

/-- `CanShardCreateNewUrl`. -/
def View.canShardCreateNewUrl (v : View) (shardId : ℤ) : Bool := shardId ∈ v.shardIdsForNewUrls

/-- The sets of the first loop of `UpdateShards`. -/
structure ShardSets where
  onlineShardSet : Finset ℤ
  readWriteShards : Finset ℤ
  writeUrlsOnlyShards : Finset ℤ
  readOnlyShards : Finset ℤ

/-- The body of the first loop. -/
def ShardSets.addChild (sets : ShardSets) (child : ChildNode) : ShardSets :=
  let sets := { sets with onlineShardSet := insert child.shardId sets.onlineShardSet }
  match child.shardType with
  | .readWrite => { sets with readWriteShards := insert child.shardId sets.readWriteShards }
  | .writeUrlsOnly => { sets with writeUrlsOnlyShards := insert child.shardId sets.writeUrlsOnlyShards }
  | .readOnly => { sets with readOnlyShards := insert child.shardId sets.readOnlyShards }
  | .uninitialized => sets

/-- `UpdateShards`. -/
def updateShards (children : List ChildNode) : View :=
  let sets := children.foldl ShardSets.addChild ⟨∅, ∅, ∅, ∅⟩
  let readWriteShards := sets.readWriteShards.filter fun shardId => shardId ∉ sets.readOnlyShards
  { onlineShardSet := sets.onlineShardSet
    shardIdsForNewUsers := readWriteShards.filter fun shardId => shardId ∉ sets.writeUrlsOnlyShards
    shardIdsForNewUrls := readWriteShards ∪
      sets.writeUrlsOnlyShards.filter fun shardId => shardId ∉ sets.readOnlyShards }

/-! ## What the sets say -/

/-- A replica of the shard shows this type. -/
def HasType (children : List ChildNode) (shardId : ℤ) (type : ShardType) : Prop :=
  ∃ child ∈ children, child.shardId = shardId ∧ child.shardType = type

/-- A child of the shard is there. -/
def Online (children : List ChildNode) (shardId : ℤ) : Prop :=
  ∃ child ∈ children, child.shardId = shardId

/-- The children of the shard say `ReadWrite`, and none says anything less. -/
def OpenForUsers (children : List ChildNode) (shardId : ℤ) : Prop :=
  HasType children shardId .readWrite ∧ ¬ HasType children shardId .readOnly ∧
    ¬ HasType children shardId .writeUrlsOnly

/-- Some child of the shard says that it takes URLs, and none says that it does not. -/
def OpenForUrls (children : List ChildNode) (shardId : ℤ) : Prop :=
  (HasType children shardId .readWrite ∨ HasType children shardId .writeUrlsOnly) ∧
    ¬ HasType children shardId .readOnly

/-- The same shards are online, open for users and open for URLs. -/
def SameShards (children children' : List ChildNode) : Prop :=
  ∀ shardId, (Online children shardId ↔ Online children' shardId) ∧
    (OpenForUsers children shardId ↔ OpenForUsers children' shardId) ∧
    (OpenForUrls children shardId ↔ OpenForUrls children' shardId)

variable {children children' : List ChildNode} {shardId : ℤ}

/-- The set of the shards that show a type. -/
def ShardSets.ofType (sets : ShardSets) : ShardType → Finset ℤ
  | .readWrite => sets.readWriteShards
  | .writeUrlsOnly => sets.writeUrlsOnlyShards
  | .readOnly => sets.readOnlyShards
  | .uninitialized => ∅

theorem ShardSets.mem_online_addChild (sets : ShardSets) (child : ChildNode) :
    shardId ∈ (sets.addChild child).onlineShardSet ↔
      child.shardId = shardId ∨ shardId ∈ sets.onlineShardSet := by
  rw [eq_comm]
  cases htype : child.shardType <;> simp [addChild, htype]

theorem ShardSets.mem_ofType_addChild (sets : ShardSets) (child : ChildNode) {type : ShardType}
    (htype : type ≠ .uninitialized) :
    shardId ∈ (sets.addChild child).ofType type ↔
      (child.shardId = shardId ∧ child.shardType = type) ∨ shardId ∈ sets.ofType type := by
  rw [eq_comm (a := child.shardId)]
  cases type with
  | uninitialized => exact absurd rfl htype
  | _ => cases hchild : child.shardType <;> simp [addChild, ofType, hchild]

theorem mem_online_foldl (children : List ChildNode) (shardId : ℤ) (sets : ShardSets) :
    shardId ∈ (children.foldl ShardSets.addChild sets).onlineShardSet ↔
      Online children shardId ∨ shardId ∈ sets.onlineShardSet := by
  induction children generalizing sets with
  | nil => simp [Online]
  | cons child children ih =>
    rw [List.foldl_cons, ih, ShardSets.mem_online_addChild]
    simp only [Online, List.mem_cons, exists_eq_or_imp]
    exact or_left_comm.trans or_assoc.symm

theorem mem_ofType_foldl (sets : ShardSets) {type : ShardType} (htype : type ≠ .uninitialized) :
    shardId ∈ (children.foldl ShardSets.addChild sets).ofType type ↔
      HasType children shardId type ∨ shardId ∈ sets.ofType type := by
  induction children generalizing sets with
  | nil => simp [HasType]
  | cons child children ih =>
    rw [List.foldl_cons, ih, ShardSets.mem_ofType_addChild _ _ htype]
    simp only [HasType, List.mem_cons, exists_eq_or_imp]
    exact or_left_comm.trans or_assoc.symm

theorem mem_onlineShardSet :
    shardId ∈ (updateShards children).onlineShardSet ↔ Online children shardId := by
  have h := mem_online_foldl children shardId ⟨∅, ∅, ∅, ∅⟩
  simpa [updateShards] using h

theorem mem_shardIds :
    (shardId ∈ (updateShards children).shardIdsForNewUsers ↔ OpenForUsers children shardId) ∧
    (shardId ∈ (updateShards children).shardIdsForNewUrls ↔ OpenForUrls children shardId) := by
  have hset : ∀ type : ShardType, type ≠ .uninitialized →
      (shardId ∈ (children.foldl ShardSets.addChild ⟨∅, ∅, ∅, ∅⟩).ofType type ↔
        HasType children shardId type) := by
    intro type htype
    rw [mem_ofType_foldl _ htype]
    cases type <;> simp [ShardSets.ofType]
  have hrw := hset .readWrite (by decide)
  have hwu := hset .writeUrlsOnly (by decide)
  have hro := hset .readOnly (by decide)
  simp only [ShardSets.ofType] at hrw hwu hro
  simp only [updateShards, Finset.mem_filter, Finset.mem_union, hrw, hwu, hro, OpenForUsers, OpenForUrls]
  tauto

/-- Which shards are online and open decides the sets. -/
theorem updateShards_eq_iff :
    updateShards children = updateShards children' ↔ SameShards children children' := by
  constructor
  · intro h shardId
    rw [← mem_onlineShardSet, ← mem_shardIds.1, ← mem_shardIds.2, h, mem_onlineShardSet,
      mem_shardIds.1, mem_shardIds.2]
    exact ⟨Iff.rfl, Iff.rfl, Iff.rfl⟩
  · intro h
    have honline : (updateShards children).onlineShardSet =
        (updateShards children').onlineShardSet := by
      ext shardId
      rw [mem_onlineShardSet, mem_onlineShardSet]
      exact (h shardId).1
    have husers : (updateShards children).shardIdsForNewUsers =
        (updateShards children').shardIdsForNewUsers := by
      ext shardId
      rw [mem_shardIds.1, mem_shardIds.1]
      exact (h shardId).2.1
    have hurls : (updateShards children).shardIdsForNewUrls =
        (updateShards children').shardIdsForNewUrls := by
      ext shardId
      rw [mem_shardIds.2, mem_shardIds.2]
      exact (h shardId).2.2
    calc updateShards children
        = ⟨(updateShards children).onlineShardSet, (updateShards children).shardIdsForNewUsers,
            (updateShards children).shardIdsForNewUrls⟩ := rfl
      _ = updateShards children' := by rw [honline, husers, hurls]

instance : Decidable (SameShards children children') := decidable_of_iff _ updateShards_eq_iff

/-! ## State and steps -/

/-- Where `Initialize` is. -/
inductive Initialize
  | notStarted
  /-- `OnChildrenChanged` has returned. -/
  | subscribed
  /-- `GetChildren` has returned. -/
  | read (children : List ChildNode)
  /-- `UpdateShards` has written the sets. -/
  | updated
  | finished
  | failed
  deriving DecidableEq, Repr

/-- The children in ZooKeeper, and what the frontend knows of them. -/
structure State where
  /-- the children of the shard path -/
  children : List ChildNode
  progress : Initialize
  subscribed : Bool
  /-- the outstanding calls of the handler in their order, with their children once they are
      read -/
  calls : List (Option (List ChildNode))
  view : View

/-- The frontend before `Initialize`. -/
def State.init (children : List ChildNode) : State := ⟨children, .notStarted, false, [], .empty⟩

/-- What can happen next. -/
inductive Event
  /-- The children of the shard path change. -/
  | change (children : List ChildNode)
  /-- `Initialize` subscribes. -/
  | onChildrenChanged
  /-- `Initialize` reads the children. -/
  | getChildren
  /-- `Initialize` calls `UpdateShards`. -/
  | updateShards
  | initializeReturns
  | initializeThrows
  /-- The children for call `k` of the handler are read. -/
  | fetch (k : ℕ)
  /-- The first call of the handler calls `UpdateShards`. -/
  | handle
  deriving DecidableEq, Repr

/-- A step of ZooKeeper or of the frontend. -/
def step (s : State) : Event → Option State
  | .change children =>
    some { s with
      children := children
      calls := if s.subscribed then s.calls ++ [none] else s.calls }
  | .onChildrenChanged =>
    match s.progress with
    | .notStarted => some { s with progress := .subscribed, subscribed := true }
    | _ => none
  | .getChildren =>
    match s.progress with
    | .subscribed => some { s with progress := .read s.children }
    | _ => none
  | .updateShards =>
    match s.progress with
    | .read children => some { s with progress := .updated, view := Frontend.updateShards children }
    | _ => none
  | .initializeReturns =>
    match s.progress with
    | .updated => some { s with progress := .finished }
    | _ => none
  | .initializeThrows =>
    match s.progress with
    | .finished => none
    | _ => some { s with progress := .failed }
  | .fetch k =>
    match s.calls[k]? with
    | some none => some { s with calls := s.calls.set k (some s.children) }
    | _ => none
  | .handle =>
    match s.calls with
    | some children :: calls => some { s with calls := calls, view := Frontend.updateShards children }
    | _ => none

/-! ## Convergence -/

/-- The property: with nothing outstanding, the sets belong to the current children. -/
def Converged (s : State) : Prop :=
  s.progress = .finished → s.calls = [] → s.view = updateShards s.children

/-- The same from the `UpdateShards` of `Initialize` on. -/
def Current (s : State) : Prop :=
  s.progress = .updated ∨ s.progress = .finished → s.calls = [] →
    s.view = updateShards s.children

/-- When `Initialize` calls `UpdateShards`, a call of the handler is outstanding or what
    `Initialize` has read shows the same shards as the current children. -/
def NotOvertaken (s : State) : Event → Prop
  | .updateShards =>
    ∀ children, s.progress = .read children → s.calls ≠ [] ∨ SameShards children s.children
  | _ => True

/-- The frontend has subscribed, and its last call comes after the last change. -/
structure Inv (s : State) : Prop where
  /-- The last call of the handler comes after the last change. -/
  last : ∀ children, s.calls.getLast? = some (some children) → children = s.children
  subscribed : s.progress ≠ .notStarted → s.progress ≠ .failed → s.subscribed = true
  unsubscribed : s.subscribed = false → s.calls = []

variable {s t : State} {e : Event} {es : List Event}

theorem Current.converged (h : Current s) : Converged s := fun hfinished => h (.inr hfinished)

theorem inv_init : Inv (.init children) := ⟨by simp [State.init], by simp [State.init], fun _ => rfl⟩

/-- What a step does. -/
theorem step_cases (h : step s e = some t) :
    (∃ children, e = .change children ∧
      t = { s with
        children := children
        calls := if s.subscribed then s.calls ++ [none] else s.calls }) ∨
    (e = .onChildrenChanged ∧ s.progress = .notStarted ∧
      t = { s with progress := .subscribed, subscribed := true }) ∨
    (e = .getChildren ∧ s.progress = .subscribed ∧ t = { s with progress := .read s.children }) ∨
    (∃ children, e = .updateShards ∧ s.progress = .read children ∧
      t = { s with progress := .updated, view := updateShards children }) ∨
    (e = .initializeReturns ∧ s.progress = .updated ∧ t = { s with progress := .finished }) ∨
    (e = .initializeThrows ∧ s.progress ≠ .finished ∧ t = { s with progress := .failed }) ∨
    (∃ k, e = .fetch k ∧ s.calls[k]? = some none ∧
      t = { s with calls := s.calls.set k (some s.children) }) ∨
    ∃ children calls, e = .handle ∧ s.calls = some children :: calls ∧
      t = { s with calls := calls, view := updateShards children } := by
  cases e with
  | change children => exact .inl ⟨children, rfl, (Option.some.inj h).symm⟩
  | onChildrenChanged =>
    simp only [step] at h
    split at h
    · rename_i hs
      exact .inr (.inl ⟨rfl, hs, (Option.some.inj h).symm⟩)
    · cases h
  | getChildren =>
    simp only [step] at h
    split at h
    · rename_i hs
      exact .inr (.inr (.inl ⟨rfl, hs, (Option.some.inj h).symm⟩))
    · cases h
  | updateShards =>
    simp only [step] at h
    split at h
    · rename_i children hs
      exact .inr (.inr (.inr (.inl ⟨children, rfl, hs, (Option.some.inj h).symm⟩)))
    · cases h
  | initializeReturns =>
    simp only [step] at h
    split at h
    · rename_i hs
      exact .inr (.inr (.inr (.inr (.inl ⟨rfl, hs, (Option.some.inj h).symm⟩))))
    · cases h
  | initializeThrows =>
    simp only [step] at h
    split at h
    · cases h
    · rename_i hs
      exact .inr (.inr (.inr (.inr (.inr (.inl ⟨rfl, hs, (Option.some.inj h).symm⟩)))))
  | fetch k =>
    simp only [step] at h
    split at h
    · rename_i hk
      exact .inr (.inr (.inr (.inr (.inr (.inr (.inl ⟨k, rfl, hk, (Option.some.inj h).symm⟩))))))
    · cases h
  | handle =>
    simp only [step] at h
    split at h
    · rename_i children calls hs
      exact .inr (.inr (.inr (.inr (.inr (.inr (.inr
        ⟨children, calls, rfl, hs, (Option.some.inj h).symm⟩))))))
    · cases h

theorem Inv.step (hi : Inv s) (h : step s e = some t) : Inv t := by
  obtain ⟨hlast, hsub, hunsub⟩ := hi
  rcases step_cases h with ⟨children, -, rfl⟩ | ⟨-, -, rfl⟩ | ⟨-, hs, rfl⟩ | ⟨children, -, hs, rfl⟩ |
    ⟨-, hs, rfl⟩ | ⟨-, -, rfl⟩ | ⟨k, -, hk, rfl⟩ | ⟨children, calls, -, hs, rfl⟩
  · cases hs : s.subscribed with
    | true =>
      refine ⟨?_, fun _ _ => rfl, fun hfalse => absurd hfalse (by simp)⟩
      intro children' hget
      simp at hget
    | false =>
      have hcalls := hunsub hs
      refine ⟨?_, ?_, fun _ => hcalls⟩
      · intro children' hget
        simp [hcalls] at hget
      · intro h1 h2
        exact hs.symm.trans (hsub h1 h2)
  · exact ⟨hlast, fun _ _ => rfl, by simp⟩
  · exact ⟨hlast, fun _ _ => hsub (by simp [hs]) (by simp [hs]), hunsub⟩
  · exact ⟨hlast, fun _ _ => hsub (by simp [hs]) (by simp [hs]), hunsub⟩
  · exact ⟨hlast, fun _ _ => hsub (by simp [hs]) (by simp [hs]), hunsub⟩
  · exact ⟨hlast, fun _ hne => absurd rfl hne, hunsub⟩
  · refine ⟨?_, hsub, ?_⟩
    · intro children hget
      rw [List.getLast?_eq_getElem?, List.length_set, List.getElem?_set] at hget
      split_ifs at hget with hlt
      · exact (Option.some.inj (Option.some.inj hget)).symm
      · exact hlast children (by rw [List.getLast?_eq_getElem?]; exact hget)
    · intro hs
      rw [hunsub hs] at hk
      cases hk
  · refine ⟨?_, hsub, ?_⟩
    · intro children' hget
      apply hlast
      rw [hs, List.getLast?_cons, show calls.getLast? = some (some children') from hget]
      rfl
    · intro hfalse
      rw [hunsub hfalse] at hs
      cases hs

/-- The sets get out of date only when `Initialize` is overtaken. -/
theorem current_step_iff (hi : Inv s) (hc : Current s) (h : step s e = some t) :
    Current t ↔ NotOvertaken s e := by
  rcases step_cases h with ⟨children, rfl, rfl⟩ | ⟨rfl, -, rfl⟩ | ⟨rfl, -, rfl⟩ |
    ⟨children, rfl, hs, rfl⟩ | ⟨rfl, hs, rfl⟩ | ⟨rfl, -, rfl⟩ | ⟨k, rfl, hk, rfl⟩ |
    ⟨children, calls, rfl, hs, rfl⟩
  · -- the handler gets a call
    refine iff_of_true ?_ trivial
    intro hprogress hcalls
    have hs : s.subscribed = true := by
      apply hi.subscribed <;> rcases hprogress with hp | hp <;> simp [show s.progress = _ from hp]
    simp [hs] at hcalls
  · refine iff_of_true ?_ trivial
    intro hprogress
    simp at hprogress
  · refine iff_of_true ?_ trivial
    intro hprogress
    simp at hprogress
  · constructor
    · intro hcurrent children' hread
      obtain rfl := Initialize.read.inj (hs.symm.trans hread)
      by_cases hcalls : s.calls = []
      · exact .inr (updateShards_eq_iff.mp (hcurrent (.inl rfl) hcalls))
      · exact .inl hcalls
    · intro hok _ hcalls
      rcases hok children hs with hne | hsame
      · exact absurd hcalls hne
      · exact updateShards_eq_iff.mpr hsame
  · exact iff_of_true (fun _ => hc (.inl hs)) trivial
  · refine iff_of_true ?_ trivial
    intro hprogress
    simp at hprogress
  · refine iff_of_true ?_ trivial
    intro _ hcalls
    have hnil : s.calls = [] := by simpa using hcalls
    rw [hnil] at hk
    cases hk
  · refine iff_of_true ?_ trivial
    intro _ hcalls
    obtain rfl : calls = [] := hcalls
    -- the last call has read the children after the last change
    have hlast := hi.last children (by rw [hs]; rfl)
    show updateShards children = updateShards s.children
    rw [hlast]

/-- The sets are right in all states of a run from the `UpdateShards` of `Initialize` on exactly
    when `Initialize` is never overtaken. -/
theorem converges_iff : Run step (fun s _ => Current s) (.init children) es s ∧ Current s ↔
    Run step NotOvertaken (.init children) es s := by
  apply Run.everywhere_iff Inv inv_init
  · intro hprogress
    simp [State.init] at hprogress
  · exact fun _ _ _ hi hs => hi.step hs
  · exact fun _ _ _ hi hc hs => current_step_iff hi hc hs

/-- **The view converges** while `Initialize` is not overtaken. -/
theorem view_converges (h : Run step NotOvertaken (.init children) es s) :
    s.progress = .finished → s.calls = [] → s.view = updateShards s.children :=
  (converges_iff.mpr h).2.converged

/-! ## A shard closes during `Initialize` -/

/-- The replica of shard 1, open. -/
def openNode : ChildNode := ⟨"backend1", 1, .readWrite⟩

/-- The same replica, closed. -/
def closedNode : ChildNode := ⟨"backend1", 1, .readOnly⟩

/-- The handler comes after `Initialize`. -/
theorem view_converges_closedNode :
    ∃ s, Run step NotOvertaken (.init [openNode]) [.onChildrenChanged, .getChildren,
        .change [closedNode], .updateShards, .initializeReturns, .fetch 0, .handle] s ∧
      s.view = updateShards [closedNode] := by
  have h0 : Run step NotOvertaken (.init [openNode]) [] (.init [openNode]) := .nil
  have h1 := h0.snoc (e := Event.onChildrenChanged) trivial rfl
  have h2 := h1.snoc (e := Event.getChildren) trivial rfl
  have h3 := h2.snoc (e := Event.change [closedNode]) trivial rfl
  have h4 := h3.snoc (e := Event.updateShards) (fun _ _ => .inl (List.cons_ne_nil _ _)) rfl
  have h5 := h4.snoc (e := Event.initializeReturns) trivial rfl
  have h6 := h5.snoc (e := Event.fetch 0) trivial rfl
  have h7 := h6.snoc (e := Event.handle) trivial rfl
  exact ⟨_, h7, view_converges h7 rfl rfl⟩

/-- The handler comes between the two halves of `Initialize`, which then takes the closed shard
    for open. -/
theorem stale_view :
    ∃ s, Run step always (.init [openNode]) [.onChildrenChanged, .getChildren, .change [closedNode],
        .fetch 0, .handle, .updateShards, .initializeReturns] s ∧
      s.progress = .finished ∧ s.calls = [] ∧ s.view ≠ updateShards s.children ∧
      s.view.canShardCreateNewUrl 1 = true ∧ s.view.getShardIdForNewUser (fun _ => 1) = some 1 :=
  ⟨_, run_iff_foldlM.mpr rfl, rfl, rfl, by decide, by decide, by decide⟩

end Shortener.Shard.Frontend
