import Shortener.Codec.ShortId
import Shortener.Common.Run
import Shortener.Shard.ShardType

/-!
# How many short ids a shard hands out

The backends of all shards, each with its database and any number of processes.
`UrlService.Create` is cut where other calls can get in between: it reads `Type`,
inserts a row whose id the `SERIAL` sequence chose, and then compares the id with
the thresholds, enqueues a type change and prints the short id. Enqueued
`ChangeType` work items run late, fail, or are lost with their process. A call whose
destination is invalid or banned throws before it changes anything and has no event.

* `createShortIds_decode_iff`: the short ids of a run name the rows they were made
  for, and are all different, exactly when every `Create` of the run answers for a
  row with `Id < RangeSize`.
* `createShortIds_collide`: nothing in the code ensures that. The guard compares
  `Type`, which only changes when a `ChangeType` item succeeds, so a shard can pass
  `RangeSize` and print the ids of the next shard.
-/

namespace Shortener.Shard

open Shortener.Common Shortener.DotNet Shortener.Codec

/-! ## State -/

/-- `CreateUrlRequest`. -/
structure CreateRequest where
  userId : ℤ
  destinationUrl : String
  deriving DecidableEq, Repr

/-- The columns of table `Url` that `Create` and `Delete` use. -/
structure UrlRow where
  id : ℤ
  userId : ℤ
  destinationUrl : String
  deriving DecidableEq, Repr

/-- What a replica of a shard keeps in memory: `ShardService._type` and
    `_initialized`, the `maxId` of an `Initialize` that is running, and the
    `ChangeType` items in its task queue. -/
structure Replica where
  type : ShardType
  initialized : Bool
  maxId : Option (Option ℤ)
  queue : List ShardType
  deriving DecidableEq, Repr

/-- A shard: its database and its replicas. -/
structure Backend where
  /-- the last value of the sequence behind `"Url"."Id"` -/
  sequence : ℕ
  rows : List UrlRow
  replica : ℕ → Replica
  /-- `Create` calls that have passed the check of `Type`, with their replica -/
  checked : List (ℕ × CreateRequest)
  /-- `Create` calls whose row is inserted, with their replica -/
  inserted : List (ℕ × UrlRow)

/-- A `CreateUrlReply` of shard `shard`, with the row it was made for. -/
structure CreateReply where
  shard : ℤ
  url : UrlRow
  shortId : String

/-- The shards, and the replies of `Create`. -/
structure State where
  shards : ℤ → Backend
  replies : List CreateReply

/-- The deployed shards. -/
structure Deployment where
  ids : Finset ℤ
  valid : ∀ r ∈ ids, IsShardId r

/-- A replica that has not started up. -/
def Replica.init : Replica := ⟨.uninitialized, false, none, []⟩

/-- An empty table, and no replica that has started up. -/
def Backend.init : Backend := ⟨0, [], fun _ => .init, [], []⟩

/-- No shard has started up. -/
def State.init : State := ⟨fun _ => .init, []⟩

/-! ## Steps -/

/-- What can happen next on replica `p` of a shard. -/
inductive Action
  /-- `Create` starts; line 41 lets it pass. -/
  | create (request : CreateRequest)
  /-- The `INSERT` of the `i`-th checked call succeeds. -/
  | insert (i : ℕ)
  /-- The `INSERT` of the `i`-th checked call fails, after it drew from the sequence. -/
  | insertFails (i : ℕ)
  /-- The `i`-th inserted call compares its id and answers. -/
  | reply (i : ℕ)
  /-- `Delete` runs its statement. -/
  | delete (id userId : ℤ)
  /-- The worker runs the `i`-th queued `ChangeType`, which throws unless `succeeds`. -/
  | changeType (i : ℕ) (succeeds : Bool)
  /-- The process ends and another one starts. -/
  | restart
  /-- `ShardService.Initialize` reads the largest id of the table. -/
  | readMaxId
  /-- `ShardService.Initialize` picks the type and returns. -/
  | initializeShard
  deriving DecidableEq

/-- What can happen next. -/
structure Event where
  shard : ℤ
  replica : ℕ
  action : Action

/-- A replica is in another state. -/
def Backend.setReplica (sh : Backend) (p : ℕ) (q : Replica) : Backend :=
  { sh with replica := Function.update sh.replica p q }

/-- A step of shard `r`: its next state and the answer it sends, if any. -/
def Backend.step (r : ℤ) (sh : Backend) (p : ℕ) : Action → Option (Backend × Option CreateReply)
  | .create request =>
    if (sh.replica p).type = .readOnly then none
    else some ({ sh with checked := sh.checked ++ [(p, request)] }, none)
  | .insert i =>
    match sh.checked[i]? with
    | some (q, request) =>
      -- the sequence of a `SERIAL` column ends at the largest `INT`
      if q = p ∧ sh.sequence + 1 < 2 ^ 31 then
        let url : UrlRow := ⟨sh.sequence + 1, request.userId, request.destinationUrl⟩
        some ({ sh with
          sequence := sh.sequence + 1
          rows := sh.rows ++ [url]
          checked := sh.checked.eraseIdx i
          inserted := sh.inserted ++ [(p, url)] }, none)
      else none
    | none => none
  | .insertFails i =>
    match sh.checked[i]? with
    | some (q, _) =>
      if q = p ∧ sh.sequence + 1 < 2 ^ 31 then
        some ({ sh with
          sequence := sh.sequence + 1
          checked := sh.checked.eraseIdx i }, none)
      else none
    | none => none
  | .reply i =>
    match sh.inserted[i]? with
    | some (q, url) =>
      match ShortId.toString ⟨r, url.id⟩ with
      | .ret shortId =>
        if q = p then
          let change := (thresholdChange (sh.replica p).type url.id).toList
          let sh := { sh with inserted := sh.inserted.eraseIdx i }
          some (sh.setReplica p { sh.replica p with queue := (sh.replica p).queue ++ change },
            some ⟨r, url, shortId⟩)
        else none
      | _ => none
    | none => none
  | .delete id userId =>
    some ({ sh with rows := sh.rows.filter fun url => ¬ (url.id = id ∧ url.userId = userId) }, none)
  | .changeType i succeeds =>
    match (sh.replica p).queue[i]? with
    | some newType =>
      -- the worker starts after `Initialize` (`StartupHealthCheck.WaitUntilReady`)
      if (sh.replica p).initialized then
        some (sh.setReplica p
          { sh.replica p with
            type := if succeeds then newType else (sh.replica p).type
            queue := (sh.replica p).queue.eraseIdx i }, none)
      else none
    | none => none
  | .restart =>
    some ({ sh.setReplica p .init with
      checked := sh.checked.filter (·.1 ≠ p)
      inserted := sh.inserted.filter (·.1 ≠ p) }, none)
  | .readMaxId =>
    if (sh.replica p).initialized then none
    else
      some (sh.setReplica p
        { sh.replica p with maxId := some (sh.rows.map UrlRow.id).max? }, none)
  | .initializeShard =>
    match (sh.replica p).maxId with
    | some maxId =>
      some (sh.setReplica p
        { sh.replica p with
          type := initialType maxId
          initialized := true
          maxId := none }, none)
    | none => none

/-- A step of the deployment. -/
def step (d : Deployment) (s : State) (e : Event) : Option State :=
  if e.shard ∈ d.ids then
    ((s.shards e.shard).step e.shard e.replica e.action).map fun (sh, out) =>
      { shards := Function.update s.shards e.shard sh
        replies := s.replies ++ out.toList }
  else none

/-! ## What a step does to the ids -/

/-- The ids of the rows whose `Create` has not answered yet. -/
def Backend.insertedIds (sh : Backend) : List ℤ := sh.inserted.map fun call => call.2.id

@[simp] theorem Backend.setReplica_sequence (sh : Backend) (p : ℕ) (q : Replica) :
    (sh.setReplica p q).sequence = sh.sequence := rfl

@[simp] theorem Backend.setReplica_inserted (sh : Backend) (p : ℕ) (q : Replica) :
    (sh.setReplica p q).inserted = sh.inserted := rfl

@[simp] theorem Backend.setReplica_insertedIds (sh : Backend) (p : ℕ) (q : Replica) :
    (sh.setReplica p q).insertedIds = sh.insertedIds := rfl

/-- Every step of a shard is one of three kinds: it answers nothing and adds no id;
    it takes the next value of the sequence for an inserted row; or it answers for an
    inserted row, which then is no longer in flight. -/
theorem Backend.step_cases {r : ℤ} {sh sh' : Backend} {p : ℕ} {a : Action}
    {out : Option CreateReply} (h : sh.step r p a = some (sh', out)) :
    (out = none ∧ sh'.insertedIds.Sublist sh.insertedIds ∧ sh.sequence ≤ sh'.sequence ∧
      (sh.sequence < 2 ^ 31 → sh'.sequence < 2 ^ 31) ∧ ∀ i, a ≠ .reply i) ∨
    (out = none ∧ sh'.sequence = sh.sequence + 1 ∧ sh'.sequence < 2 ^ 31 ∧
      sh'.insertedIds = sh.insertedIds ++ [(sh'.sequence : ℤ)] ∧ ∀ i, a ≠ .reply i) ∨
    (∃ i url shortId, a = .reply i ∧ sh.inserted[i]? = some (p, url) ∧
      ShortId.toString ⟨r, url.id⟩ = .ret shortId ∧ out = some ⟨r, url, shortId⟩ ∧
      sh'.sequence = sh.sequence ∧ sh'.insertedIds.Sublist sh.insertedIds ∧
      (url.id :: sh'.insertedIds).Perm sh.insertedIds) := by
  cases a with
  | create request =>
    simp only [Backend.step, Option.ite_none_left_eq_some, Option.some.injEq, Prod.mk.injEq] at h
    obtain ⟨-, rfl, rfl⟩ := h
    exact .inl ⟨rfl, List.Sublist.refl _, le_rfl, id, by simp⟩
  | insert i =>
    simp only [Backend.step] at h
    split at h
    · simp only [Option.ite_none_right_eq_some, Option.some.injEq, Prod.mk.injEq] at h
      obtain ⟨⟨rfl, hlt⟩, rfl, rfl⟩ := h
      exact .inr (.inl ⟨rfl, rfl, hlt, by simp [Backend.insertedIds], by simp⟩)
    · cases h
  | insertFails i =>
    simp only [Backend.step] at h
    split at h
    · simp only [Option.ite_none_right_eq_some, Option.some.injEq, Prod.mk.injEq] at h
      obtain ⟨⟨rfl, hlt⟩, rfl, rfl⟩ := h
      exact .inl ⟨rfl, List.Sublist.refl _, Nat.le_succ _, fun _ => hlt, by simp⟩
    · cases h
  | reply i =>
    simp only [Backend.step] at h
    split at h
    · rename_i q url hi
      split at h
      · rename_i shortId hs
        simp only [Option.ite_none_right_eq_some, Option.some.injEq, Prod.mk.injEq] at h
        obtain ⟨rfl, rfl, rfl⟩ := h
        refine .inr (.inr ⟨i, url, shortId, rfl, hi, hs, rfl, rfl,
          (List.eraseIdx_sublist _ _).map _, ?_⟩)
        obtain ⟨hlt, hget⟩ := List.getElem?_eq_some_iff.mp hi
        have hperm := (List.getElem_cons_eraseIdx_perm hlt).map fun call : ℕ × UrlRow => call.2.id
        rwa [List.map_cons, hget] at hperm
      · cases h
    · cases h
  | delete id userId =>
    simp only [Backend.step, Option.some.injEq, Prod.mk.injEq] at h
    obtain ⟨rfl, rfl⟩ := h
    exact .inl ⟨rfl, List.Sublist.refl _, le_rfl, fun h => h, by simp⟩
  | changeType i succeeds =>
    simp only [Backend.step] at h
    split at h
    · simp only [Option.ite_none_right_eq_some, Option.some.injEq, Prod.mk.injEq] at h
      obtain ⟨-, rfl, rfl⟩ := h
      exact .inl ⟨rfl, List.Sublist.refl _, le_rfl, id, by simp⟩
    · cases h
  | restart =>
    simp only [Backend.step, Option.some.injEq, Prod.mk.injEq] at h
    obtain ⟨rfl, rfl⟩ := h
    exact .inl ⟨rfl, List.filter_sublist.map _, le_rfl, id, by simp⟩
  | readMaxId =>
    simp only [Backend.step, Option.ite_none_left_eq_some, Option.some.injEq, Prod.mk.injEq] at h
    obtain ⟨-, rfl, rfl⟩ := h
    exact .inl ⟨rfl, List.Sublist.refl _, le_rfl, id, by simp⟩
  | initializeShard =>
    simp only [Backend.step] at h
    split at h
    · simp only [Option.some.injEq, Prod.mk.injEq] at h
      obtain ⟨rfl, rfl⟩ := h
      exact .inl ⟨rfl, List.Sublist.refl _, le_rfl, id, by simp⟩
    · cases h

/-! ## Invariant -/

/-- The row a reply was made for: its shard and its id. -/
def CreateReply.row (c : CreateReply) : ℤ × ℤ := (c.shard, c.url.id)

/-- No row is in flight twice, answered twice, or in flight after it was answered;
    all ids come from the sequence of their shard. -/
structure Inv (d : Deployment) (s : State) : Prop where
  sequence_lt : ∀ r, (s.shards r).sequence < 2 ^ 31
  inFlight : ∀ r, ∀ id ∈ (s.shards r).insertedIds, 1 ≤ id ∧ id ≤ (s.shards r).sequence
  nodup : ∀ r, (s.shards r).insertedIds.Nodup
  replied : ∀ c ∈ s.replies, c.shard ∈ d.ids ∧ 1 ≤ c.url.id ∧
    c.url.id ≤ (s.shards c.shard).sequence ∧ c.url.id ∉ (s.shards c.shard).insertedIds ∧
    ShortId.toString ⟨c.shard, c.url.id⟩ = .ret c.shortId
  distinct : (s.replies.map CreateReply.row).Nodup

theorem inv_init (d : Deployment) : Inv d .init :=
  ⟨by simp [State.init, Backend.init], by simp [State.init, Backend.init, Backend.insertedIds],
    by simp [State.init, Backend.init, Backend.insertedIds], by simp [State.init],
    by simp [State.init]⟩

/-- A change of one shard that only drops ids keeps the invariant. -/
theorem Inv.shrink {d : Deployment} {s : State} (h : Inv d s) {r : ℤ} {sh : Backend}
    (hsub : sh.insertedIds.Sublist (s.shards r).insertedIds)
    (hle : (s.shards r).sequence ≤ sh.sequence) (hlt : sh.sequence < 2 ^ 31) :
    Inv d { s with shards := Function.update s.shards r sh } := by
  refine ⟨?_, ?_, ?_, ?_, h.distinct⟩
  · intro r'
    by_cases hr : r' = r
    · subst hr; simpa using hlt
    · simpa [hr] using h.sequence_lt r'
  · intro r'
    by_cases hr : r' = r
    · subst hr
      intro id hid
      simp only [Function.update_self] at hid ⊢
      obtain ⟨h1, h2⟩ := h.inFlight r' id (hsub.subset hid)
      exact ⟨h1, h2.trans (by exact_mod_cast hle)⟩
    · simpa [hr] using h.inFlight r'
  · intro r'
    by_cases hr : r' = r
    · subst hr; simpa using hsub.nodup (h.nodup r')
    · simpa [hr] using h.nodup r'
  · intro c hc
    obtain ⟨h1, h2, h3, h4, h5⟩ := h.replied c hc
    refine ⟨h1, h2, ?_, ?_, h5⟩
    · by_cases hr : c.shard = r
      · simp only [hr, Function.update_self] at h3 ⊢
        exact h3.trans (by exact_mod_cast hle)
      · simpa [hr] using h3
    · by_cases hr : c.shard = r
      · simp only [hr, Function.update_self] at h4 ⊢
        exact fun hmem => h4 (hsub.subset hmem)
      · simpa [hr] using h4

/-- Taking the next value of the sequence for a row keeps the invariant. -/
theorem Inv.insert {d : Deployment} {s : State} (h : Inv d s) {r : ℤ} {sh : Backend}
    (hseq : sh.sequence = (s.shards r).sequence + 1) (hlt : sh.sequence < 2 ^ 31)
    (hids : sh.insertedIds = (s.shards r).insertedIds ++ [(sh.sequence : ℤ)]) :
    Inv d { s with shards := Function.update s.shards r sh } := by
  have hfresh : (sh.sequence : ℤ) ∉ (s.shards r).insertedIds := by
    intro hmem
    have := (h.inFlight r _ hmem).2
    omega
  refine ⟨?_, ?_, ?_, ?_, h.distinct⟩
  · intro r'
    by_cases hr : r' = r
    · subst hr; simpa using hlt
    · simpa [hr] using h.sequence_lt r'
  · intro r'
    by_cases hr : r' = r
    · subst hr
      intro id hid
      simp only [Function.update_self, hids, List.mem_append, List.mem_singleton] at hid ⊢
      rcases hid with hid | rfl
      · have := h.inFlight r' id hid
        omega
      · omega
    · simpa [hr] using h.inFlight r'
  · intro r'
    by_cases hr : r' = r
    · subst hr
      simp only [Function.update_self, hids]
      exact (h.nodup r').append (List.nodup_singleton _) (by simpa using hfresh)
    · simpa [hr] using h.nodup r'
  · intro c hc
    obtain ⟨h1, h2, h3, h4, h5⟩ := h.replied c hc
    refine ⟨h1, h2, ?_, ?_, h5⟩
    · by_cases hr : c.shard = r
      · simp only [hr, Function.update_self] at h3 ⊢
        omega
      · simpa [hr] using h3
    · by_cases hr : c.shard = r
      · simp only [hr, Function.update_self, hids, List.mem_append, List.mem_singleton,
          not_or] at h3 h4 ⊢
        exact ⟨h4, by omega⟩
      · simpa [hr] using h4

/-- Answering for a row in flight keeps the invariant. -/
theorem Inv.reply {d : Deployment} {s : State} (h : Inv d s) {r : ℤ} (hr : r ∈ d.ids)
    {sh : Backend} {url : UrlRow} {shortId : String}
    (hs : ShortId.toString ⟨r, url.id⟩ = .ret shortId)
    (hseq : sh.sequence = (s.shards r).sequence)
    (hsub : sh.insertedIds.Sublist (s.shards r).insertedIds)
    (hperm : (url.id :: sh.insertedIds).Perm (s.shards r).insertedIds) :
    Inv d ⟨Function.update s.shards r sh, s.replies ++ [⟨r, url, shortId⟩]⟩ := by
  have hmem : url.id ∈ (s.shards r).insertedIds := hperm.subset List.mem_cons_self
  have hnot : url.id ∉ sh.insertedIds := (List.nodup_cons.mp (hperm.symm.nodup (h.nodup r))).1
  have hshrink := h.shrink hsub hseq.ge (hseq ▸ h.sequence_lt r)
  refine ⟨hshrink.sequence_lt, hshrink.inFlight, hshrink.nodup, ?_, ?_⟩
  · intro c hc
    rcases List.mem_append.mp hc with hc | hc
    · exact hshrink.replied c hc
    · obtain rfl := List.mem_singleton.mp hc
      obtain ⟨h1, h2⟩ := h.inFlight r _ hmem
      exact ⟨hr, h1, by simpa [hseq] using h2, by simpa using hnot, hs⟩
  · rw [List.map_append]
    apply h.distinct.append (List.nodup_singleton _)
    simp only [List.disjoint_singleton]
    intro hrow
    obtain ⟨c, hc, hrow⟩ := List.mem_map.mp hrow
    obtain ⟨h1, h2⟩ := Prod.mk.inj hrow
    exact (h.replied c hc).2.2.2.1 (by rw [h1, h2]; exact hmem)

/-- What a step of the deployment does to the answers. -/
theorem step_replies {d : Deployment} {s t : State} {e : Event} (h : step d s e = some t) :
    (t.replies = s.replies ∧ ∀ i, e.action ≠ .reply i) ∨
    ∃ i url shortId, e.shard ∈ d.ids ∧ e.action = .reply i ∧
      (s.shards e.shard).inserted[i]? = some (e.replica, url) ∧
      ShortId.toString ⟨e.shard, url.id⟩ = .ret shortId ∧
      t.replies = s.replies ++ [⟨e.shard, url, shortId⟩] := by
  simp only [step, Option.ite_none_right_eq_some, Option.map_eq_some_iff] at h
  obtain ⟨hr, ⟨sh, out⟩, hsh, rfl⟩ := h
  rcases Backend.step_cases hsh with ⟨rfl, -, -, -, ha⟩ | ⟨rfl, -, -, -, ha⟩ |
    ⟨i, url, shortId, ha, hi, hs, rfl, -⟩
  · exact .inl ⟨by simp, ha⟩
  · exact .inl ⟨by simp, ha⟩
  · exact .inr ⟨i, url, shortId, hr, ha, hi, hs, rfl⟩

theorem inv_step {d : Deployment} {s t : State} {e : Event} (h : Inv d s)
    (hs : step d s e = some t) : Inv d t := by
  simp only [step, Option.ite_none_right_eq_some, Option.map_eq_some_iff] at hs
  obtain ⟨hr, ⟨sh, out⟩, hsh, rfl⟩ := hs
  rcases Backend.step_cases hsh with ⟨rfl, hsub, hle, hlt, -⟩ | ⟨rfl, hseq, hlt, hids, -⟩ |
    ⟨i, url, shortId, -, -, hstr, rfl, hseq, hsub, hperm⟩
  · simpa using h.shrink hsub hle (hlt (h.sequence_lt _))
  · simpa using h.insert hseq hlt hids
  · exact h.reply hr hstr hseq hsub hperm

/-! ## Runs of one `Create` and of failing ones -/

theorem step_of_backend {d : Deployment} {r : ℤ} (hr : r ∈ d.ids) {s : State} {p : ℕ} {a : Action}
    (sh : Backend) (out : Option CreateReply) (h : (s.shards r).step r p a = some (sh, out)) :
    step d s ⟨r, p, a⟩ = some ⟨Function.update s.shards r sh, s.replies ++ out.toList⟩ := by
  rw [step, if_pos hr, h, Option.map_some]

/-- Failing inserts leave gaps: they only advance the sequence. -/
theorem run_insertFails (d : Deployment) {r : ℤ} (hr : r ∈ d.ids) (p : ℕ) (s : State)
    (request : CreateRequest) (htype : ((s.shards r).replica p).type ≠ .readOnly)
    (hchecked : (s.shards r).checked = []) (n : ℕ) (hn : (s.shards r).sequence + n < 2 ^ 31) :
    ∃ es, Run (step d) always s es ⟨Function.update s.shards r
      { s.shards r with sequence := (s.shards r).sequence + n }, s.replies⟩ := by
  induction n with
  | zero => exact ⟨[], by simpa using Run.nil⟩
  | succ n ih =>
    obtain ⟨es, h⟩ := ih (by omega)
    have hcreate := h.snoc trivial (step_of_backend hr (p := p) (a := .create request)
      { s.shards r with
        sequence := (s.shards r).sequence + n
        checked := [(p, request)] } none (by simp [Backend.step, htype, hchecked]))
    have hfail := hcreate.snoc trivial (step_of_backend hr (p := p) (a := .insertFails 0)
      { s.shards r with sequence := (s.shards r).sequence + (n + 1) } none
      (by
        simp only [Backend.step, Function.update_self, List.getElem?_cons_zero, true_and]
        rw [if_pos (by omega), hchecked]
        rfl))
    simp only [Function.update_idem, Option.toList_none, List.append_nil] at hfail
    exact ⟨_, hfail⟩

/-- A `Create` that nothing interrupts answers for the next value of the sequence. -/
theorem run_create (d : Deployment) {r : ℤ} (hr : r ∈ d.ids) (p : ℕ) (s : State)
    (request : CreateRequest) (htype : ((s.shards r).replica p).type ≠ .readOnly)
    (hchecked : (s.shards r).checked = []) (hinserted : (s.shards r).inserted = [])
    (hn : (s.shards r).sequence + 1 < 2 ^ 31) {shortId : String}
    (hs : ShortId.toString ⟨r, (s.shards r).sequence + 1⟩ = .ret shortId) :
    ∃ es t, Run (step d) always s es t ∧
      t.replies = s.replies ++ [⟨r,
        ⟨(s.shards r).sequence + 1, request.userId, request.destinationUrl⟩, shortId⟩] ∧
      ∀ r', r' ≠ r → t.shards r' = s.shards r' := by
  have hnil : Run (step d) always s [] s := .nil
  have hcreate := hnil.snoc trivial (step_of_backend hr (p := p) (a := .create request)
    { s.shards r with checked := [(p, request)] } none (by simp [Backend.step, htype, hchecked]))
  have hinsert := hcreate.snoc trivial (step_of_backend hr (p := p) (a := .insert 0) _ none
    (by
      simp only [Function.update_self, Backend.step, List.getElem?_cons_zero, hn, true_and, if_true]
      rfl))
  have hreply := hinsert.snoc trivial (step_of_backend hr (p := p) (a := .reply 0) _ _
    (by
      simp only [Function.update_self, Backend.step, hinserted, List.nil_append,
        List.getElem?_cons_zero, hs, if_true]
      rfl))
  refine ⟨_, _, hreply, by simp, ?_⟩
  intro r' hne
  simp [hne]

/-- Shards 0 and 1. -/
def twoShards : Deployment := ⟨{0, 1}, by decide⟩

/-- Both shards run `Initialize`. -/
def twoInitializes : List Event :=
  [⟨0, 0, .readMaxId⟩, ⟨0, 0, .initializeShard⟩, ⟨1, 0, .readMaxId⟩, ⟨1, 0, .initializeShard⟩]

/-- Both shards have run `Initialize` on empty tables. -/
def twoShardsReady : State := (twoInitializes.foldlM (step twoShards) .init).getD .init

theorem run_twoShardsReady : Run (step twoShards) always .init twoInitializes twoShardsReady :=
  run_iff_foldlM.mpr rfl

/-! ## Main theorem -/

/-- Every short id names the row it was made for. -/
def Decodes (s : State) : Prop :=
  ∀ c ∈ s.replies, parseId c.shortId = .ret ⟨c.shard, c.url.id⟩

/-- No two `Create` calls answered with the same short id. -/
def Distinct (s : State) : Prop := s.replies.Pairwise fun c c' => c.shortId ≠ c'.shortId

/-- A `Create` only answers for a row whose id is in the range of its shard. -/
def InRange (s : State) (e : Event) : Prop :=
  ∀ i, e.action = .reply i →
    ∀ call, (s.shards e.shard).inserted[i]? = some call → call.2.id < rangeSize

theorem decodes_step {d : Deployment} {s t : State} {e : Event} (h : Inv d s)
    (hs : step d s e = some t) : Decodes t ↔ Decodes s ∧ InRange s e := by
  rcases step_replies hs with ⟨heq, ha⟩ | ⟨i, url, shortId, hr, ha, hi, hstr, heq⟩
  · have hok : InRange s e := fun i hi => absurd hi (ha i)
    simp only [Decodes, heq, hok, and_true]
  · have hmem : url.id ∈ (s.shards e.shard).insertedIds :=
      List.mem_map.mpr ⟨_, List.mem_of_getElem? hi, rfl⟩
    obtain ⟨h1, h2⟩ := h.inFlight e.shard _ hmem
    have hseq := h.sequence_lt e.shard
    have hparse := parseId_toString_iff (d.valid _ hr) (show 0 ≤ url.id by omega)
      (show url.id < 2 ^ 31 by omega) hstr
    have hok : InRange s e ↔ url.id < rangeSize := by
      simp [InRange, ha, hi]
    rw [hok, ← hparse]
    simp only [Decodes, heq, List.mem_append, List.mem_singleton, or_imp, forall_and,
      forall_eq]

theorem distinct_of_decodes {d : Deployment} {s : State} (h : Inv d s) (hd : Decodes s) :
    Distinct s := by
  have hrows : s.replies.Pairwise fun c c' => c.row ≠ c'.row := List.pairwise_map.mp h.distinct
  refine hrows.imp_of_mem fun {c c'} hc hc' hne heq => hne ?_
  have h1 := hd c hc
  rw [heq, hd c' hc', Exec.ret.injEq, ShortId.mk.injEq] at h1
  exact Prod.ext h1.1.symm h1.2.symm

/-- **Capacity.** -/
theorem createShortIds_decode_iff (d : Deployment) {es : List Event} {s : State}
    (h : Run (step d) always .init es s) :
    Decodes s ∧ Distinct s ↔ Run (step d) InRange .init es s := by
  have hinv : Inv d s := h.invariant (inv_init d) fun s e t hi _ hs => inv_step hi hs
  rw [← h.safe_iff (inv_init d) (by simp [Decodes, State.init])
    (fun s e t hi hs => inv_step hi hs) fun s e t hi hs => decodes_step hi hs]
  exact ⟨fun h => h.1, fun h => ⟨h, distinct_of_decodes hinv h⟩⟩

/-- The first `Create` on shard 0, as an instance of `createShortIds_decode_iff`. -/
theorem createShortIds_first :
    ∃ es s, s.replies = [⟨0, ⟨1, 1, "https://example.com"⟩, "1L9zO9P"⟩] ∧
      (Decodes s ∧ Distinct s ↔ Run (step twoShards) InRange .init es s) := by
  have h0 : (0 : ℤ) ∈ twoShards.ids := by decide
  obtain ⟨es, s, hcreate, hreplies, -⟩ := run_create twoShards h0 0 twoShardsReady
    ⟨1, "https://example.com"⟩ (by decide) rfl rfl (by decide)
    (show ShortId.toString ⟨0, 1⟩ = .ret "1L9zO9P" by decide +kernel)
  exact ⟨_, s, hreplies, createShortIds_decode_iff twoShards (run_twoShardsReady.append hcreate)⟩

/-- Row 10000001 of shard 0 and row 1 of shard 1 get the same short id. -/
theorem createShortIds_collide :
    ∃ es s, Run (step twoShards) always .init es s ∧
      ∃ c ∈ s.replies, ∃ c' ∈ s.replies, c.row = (0, 10000001) ∧ c'.row = (1, 1) ∧
        c.shortId = c'.shortId ∧ parseId c.shortId = .ret ⟨1, 1⟩ := by
  let request : CreateRequest := ⟨1, "https://example.com"⟩
  have h0 : (0 : ℤ) ∈ twoShards.ids := by decide
  have h1 : (1 : ℤ) ∈ twoShards.ids := by decide
  obtain ⟨_, hgaps⟩ := run_insertFails twoShards h0 0 twoShardsReady request (by decide) rfl
    10000000 (by decide)
  rw [show (twoShardsReady.shards 0).sequence = 0 from rfl, Nat.zero_add] at hgaps
  let s₀ : State := ⟨Function.update twoShardsReady.shards 0
    { twoShardsReady.shards 0 with sequence := 10000000 }, twoShardsReady.replies⟩
  obtain ⟨_, s₁, hcreate₁, hreplies₁, hother⟩ := run_create twoShards h0 0 s₀ request (by decide)
    rfl rfl (by decide)
    (show ShortId.toString ⟨0, 10000001⟩ = .ret "1LafLC9" by decide +kernel)
  have hone : s₁.shards 1 = twoShardsReady.shards 1 := hother 1 (by decide)
  obtain ⟨_, s₂, hcreate₂, hreplies₂, -⟩ := run_create twoShards h1 0 s₁ request
    (by rw [hone]; decide) (by rw [hone]; rfl) (by rw [hone]; rfl) (by rw [hone]; decide)
    (by
      rw [hone]
      exact (show ShortId.toString ⟨1, 1⟩ = .ret "1LafLC9" by decide +kernel))
  rw [hone] at hreplies₂
  refine ⟨_, s₂, ((run_twoShardsReady.append hgaps).append hcreate₁).append hcreate₂,
    ⟨0, ⟨10000001, 1, "https://example.com"⟩, "1LafLC9"⟩, ?_,
    ⟨1, ⟨1, 1, "https://example.com"⟩, "1LafLC9"⟩, ?_, rfl, rfl, rfl, by decide +kernel⟩
  · rw [hreplies₂, hreplies₁]
    exact List.mem_append_left _ (List.mem_append_right _ List.mem_cons_self)
  · rw [hreplies₂]
    exact List.mem_append_right _ List.mem_cons_self

end Shortener.Shard
