import Shortener.Common.Run
import Shortener.Shard.ShardType

/-!
# Creating and restarting

The type of one replica after `Initialize` (`Shortener.GrpcBackend/Services/ShardService.cs`,
lines 55–118) while it creates URLs (`UrlService.cs`, lines 37–84). `Initialize` classifies the
largest id; `Create` moves the type one step further if the new id is beyond the next threshold.
Other replicas insert rows as well, so that the ids a replica sees are increasing, but not
consecutive.

* `classifiesAlike_iff`: in a run the type is always the one that a restart would pick exactly if
  no `Create` leaves `ReadWrite` for an id from `ThresholdForNewUrls` on.
* `skipped_type`: nothing prevents that.
-/

namespace Shortener.Shard.Restart

open Shortener.Common

/-! ## State and steps -/

/-- A replica that is initialized; `maxId` is the largest id issued so far, which `GetMaxId`
    would read. -/
structure Replica where
  type : ShardType
  queue : List ShardType
  maxId : Option ℤ
  deriving DecidableEq, Repr

/-- `Initialize`. -/
def Replica.initialized (maxId : Option ℤ) : Replica := ⟨initialType maxId, [], maxId⟩

/-- `ChangeType` where it succeeds. -/
def changeType (type newType : ShardType) : ShardType := if type = newType then type else newType

/-- What can happen next. -/
inductive Event
  /-- `Create` passes the check of `Type`, and its row gets this id. -/
  | create (id : ℤ)
  /-- `Create` throws since the shard is `ReadOnly`. -/
  | refuse
  /-- The worker runs the first `ChangeType` of the queue. -/
  | runChangeType
  deriving DecidableEq, Repr

/-- A step of the replica. -/
def step (r : Replica) : Event → Option Replica
  | .create id =>
    if r.type ≠ .readOnly ∧ r.queue = [] ∧ ∀ m ∈ r.maxId, m < id then
      some { r with
        queue := r.queue ++ (thresholdChange r.type id).toList
        maxId := some id }
    else none
  | .refuse => if r.type = .readOnly then some r else none
  | .runChangeType =>
    match r.queue with
    | newType :: queue => some { r with type := changeType r.type newType, queue := queue }
    | [] => none

/-! ## What a restart would pick -/

/-- The type when the queue has run. -/
def Replica.settledType (r : Replica) : ShardType := r.queue.foldl changeType r.type

/-- `Initialize` would compute the type from the largest id. -/
def ClassifiesAlike (r : Replica) : Prop := r.settledType = initialType r.maxId

/-- With an empty queue that is the type itself. -/
theorem ClassifiesAlike.type_eq {r : Replica} (h : ClassifiesAlike r) (hqueue : r.queue = []) :
    r.type = initialType r.maxId := by
  unfold ClassifiesAlike Replica.settledType at h
  rwa [hqueue] at h

/-- The `Create` does not leave `ReadWrite` for an id at which the shard has to be `ReadOnly`. -/
def SkipsNoType (r : Replica) : Event → Prop
  | .create id => ¬ (r.type = .readWrite ∧ thresholdForNewUrls ≤ id)
  | .refuse => True
  | .runChangeType => True

instance (r : Replica) (e : Event) : Decidable (SkipsNoType r e) := by
  unfold SkipsNoType
  split <;> infer_instance

theorem changeType_eq (type newType : ShardType) : changeType type newType = newType := by
  unfold changeType
  split_ifs with h
  · exact h
  · rfl

theorem foldl_changeType_toList (type : ShardType) (change : Option ShardType) :
    change.toList.foldl changeType type = change.getD type := by
  cases change with
  | none => rfl
  | some newType => exact changeType_eq type newType

/-- One step further from the type of the last id is the type of the new id, unless a type is
    skipped. -/
theorem thresholdChange_initialType {maxId : Option ℤ} {id : ℤ} (hid : ∀ m ∈ maxId, m < id)
    (hopen : initialType maxId ≠ .readOnly) :
    (thresholdChange (initialType maxId) id).getD (initialType maxId) = initialType (some id) ↔
      ¬ (initialType maxId = .readWrite ∧ thresholdForNewUrls ≤ id) := by
  have hnew : initialType (some id) = if id < thresholdForNewUsers then .readWrite
      else if id < thresholdForNewUrls then .writeUrlsOnly else .readOnly := rfl
  have hthresholds : thresholdForNewUsers < thresholdForNewUrls := by decide
  rw [hnew]
  unfold thresholdChange
  cases htype : initialType maxId with
  | uninitialized =>
    cases maxId with
    | none => exact absurd htype (by decide)
    | some m => unfold initialType at htype; grind
  | readOnly => exact absurd htype hopen
  | readWrite => by_cases husers : id < thresholdForNewUsers <;> grind
  | writeUrlsOnly =>
    have hlarge : thresholdForNewUsers < id := by
      cases maxId with
      | none => exact absurd htype (by decide)
      | some m =>
        have hm : m < id := hid m rfl
        unfold initialType at htype
        grind
    by_cases hurls : id < thresholdForNewUrls <;> grind

theorem classifiesAlike_step {r r' : Replica} {e : Event} (h : ClassifiesAlike r)
    (hstep : step r e = some r') : ClassifiesAlike r' ↔ SkipsNoType r e := by
  cases e with
  | create id =>
    simp only [step, Option.ite_none_right_eq_some, Option.some.injEq] at hstep
    obtain ⟨⟨hopen, hqueue, hid⟩, rfl⟩ := hstep
    have htype := h.type_eq hqueue
    unfold ClassifiesAlike Replica.settledType
    rw [hqueue, List.nil_append, foldl_changeType_toList]
    rw [htype] at hopen ⊢
    rw [SkipsNoType, htype]
    exact thresholdChange_initialType hid hopen
  | refuse =>
    simp only [step, Option.ite_none_right_eq_some, Option.some.injEq] at hstep
    obtain ⟨-, rfl⟩ := hstep
    exact iff_of_true h trivial
  | runChangeType =>
    unfold step at hstep
    cases hqueue : r.queue with
    | nil => simp [hqueue] at hstep
    | cons newType queue =>
      simp only [hqueue, Option.some.injEq] at hstep
      subst hstep
      unfold ClassifiesAlike Replica.settledType at h ⊢
      rw [hqueue] at h
      exact iff_of_true h trivial

theorem classifiesAlike_initialized (maxId : Option ℤ) : ClassifiesAlike (.initialized maxId) := rfl

theorem run_classifiesAlike_iff {maxId : Option ℤ} {es : List Event} {r : Replica} :
    Run step (fun r _ => ClassifiesAlike r) (.initialized maxId) es r ∧ ClassifiesAlike r ↔
      Run step SkipsNoType (.initialized maxId) es r :=
  Run.everywhere_iff (fun _ => True) trivial (classifiesAlike_initialized maxId)
    (fun _ _ _ _ _ => trivial) (fun _ _ _ _ h hstep => classifiesAlike_step h hstep)

/-- **Creating and restarting classify a shard alike exactly as long as no `Create` skips a
    type.** In every run after `Initialize`, in every state, and with an empty queue the type is
    the one that `Initialize` would compute. -/
theorem classifiesAlike_iff (maxId : Option ℤ) (es : List Event) (r : Replica) :
    (Run step (fun r _ => ClassifiesAlike r) (.initialized maxId) es r ∧ ClassifiesAlike r ↔
      Run step SkipsNoType (.initialized maxId) es r) ∧
    (Run step SkipsNoType (.initialized maxId) es r → r.queue = [] →
      r.type = initialType r.maxId) := by
  refine ⟨run_classifiesAlike_iff, ?_⟩
  intro hrun hqueue
  have halike : ClassifiesAlike r := (run_classifiesAlike_iff.mpr hrun).2
  exact halike.type_eq hqueue

/-- Ids are left out, but no type is. -/
theorem classifiesAlike_gap :
    Run step SkipsNoType (.initialized none)
        [.create 8999999, .create 9300000, .runChangeType, .create 9600000, .runChangeType, .refuse]
        ⟨.readOnly, [], some 9600000⟩ ∧
      Run step (fun r _ => ClassifiesAlike r) (.initialized none)
        [.create 8999999, .create 9300000, .runChangeType, .create 9600000, .runChangeType, .refuse]
        ⟨.readOnly, [], some 9600000⟩ ∧
      ShardType.readOnly = initialType (some 9600000) := by
  have hrun : Run step SkipsNoType (.initialized none)
      [.create 8999999, .create 9300000, .runChangeType, .create 9600000, .runChangeType, .refuse]
      ⟨.readOnly, [], some 9600000⟩ := run_iff_foldlM_guarded.mpr (by decide)
  have halike := classifiesAlike_iff none
    [.create 8999999, .create 9300000, .runChangeType, .create 9600000, .runChangeType, .refuse]
    ⟨.readOnly, [], some 9600000⟩
  exact ⟨hrun, (halike.1.mpr hrun).1, halike.2 hrun rfl⟩

/-- The other replicas have drawn the ids between the thresholds: this one accepts URLs with
    `WriteUrlsOnly`, and would be `ReadOnly` after a restart. -/
theorem skipped_type :
    ∃ r, Run step always (.initialized none) [.create 8999999, .create 9500000, .runChangeType] r ∧
      r.queue = [] ∧ r.type = .writeUrlsOnly ∧ initialType r.maxId = .readOnly :=
  ⟨⟨.writeUrlsOnly, [], some 9500000⟩, run_iff_foldlM.mpr (by decide), rfl, rfl, by decide⟩

end Shortener.Shard.Restart
