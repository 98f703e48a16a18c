import Shortener.Admin.Bans

/-!
# The cache after an unban

`Ban`, `Unban` and `AdminService.IsBanned` in one process of the admin service whose statements
and work items all succeed. Each call runs its statement, then puts a work item into the queue,
and the worker runs the items in their order (`Shortener.Admin/Services/AdminService.cs`,
lines 16–33, and `BannedDomainService.cs`, lines 23–45).

* `settles_iff`: in a run the cache ends up with no ban that is not in the table exactly if
  `IsBanned` never queues the verdict that a domain is banned when it no longer is and no `Ban`
  or `Unban` of the domain has still to remove the entry.
* `late_verdict`: nothing keeps `IsBanned` from that.
-/

namespace Shortener.Admin.Unban

open Shortener.Common

/-! ## State and steps -/

/-- A call that has run its statement and not yet queued its work item. -/
inductive Call
  /-- `Ban` or `Unban`. -/
  | changed (name : String)
  /-- `IsBanned` with what it has read. -/
  | verdict (domain : String) (banned : Bool)
  deriving DecidableEq, Repr

/-- The work item of `RemoveDomainInBackground` or `UpdateDomainInBackground`. -/
def Call.workItem : Call → WorkItem
  | changed name => .remove (getBannedDomainKey name)
  | verdict domain banned => .set (getBannedDomainKey domain) banned

/-- The table, the cache, the queue, and the calls in progress. -/
structure State where
  /-- the names in the table `BannedDomain` -/
  bannedDomains : List String
  cache : String → Option Bool
  queue : List WorkItem
  calls : List Call

/-- No domain is banned, and nothing is cached. -/
def State.init : State := ⟨[], fun _ => none, [], []⟩

/-- What can happen next. -/
inductive Event
  /-- The statement of `Ban`. -/
  | ban (name : String)
  /-- The statement of `Unban`. -/
  | unban (name : String)
  /-- The statement of `IsBanned`. -/
  | isBanned (domain : String)
  /-- Call `i` queues its work item and returns. -/
  | queueBackgroundWorkItem (i : ℕ)
  /-- The worker runs the first work item. -/
  | runWorkItem
  | expire (key : String)
  deriving DecidableEq, Repr

/-- A step of the calls and of the queue. -/
def step (s : State) : Event → Option State
  | .ban name =>
    -- ON CONFLICT("Name") DO NOTHING
    let bannedDomains := if name ∈ s.bannedDomains then s.bannedDomains else s.bannedDomains ++ [name]
    some { s with bannedDomains := bannedDomains, calls := s.calls ++ [.changed name] }
  | .unban name =>
    some { s with
      bannedDomains := s.bannedDomains.filter fun banned => banned ≠ name
      calls := s.calls ++ [.changed name] }
  | .isBanned domain =>
    some { s with calls := s.calls ++ [.verdict domain (domain ∈ s.bannedDomains)] }
  | .queueBackgroundWorkItem i =>
    match s.calls[i]? with
    | some call =>
      some { s with calls := s.calls.eraseIdx i, queue := s.queue ++ [call.workItem] }
    | none => none
  | .runWorkItem =>
    match s.queue with
    | item :: queue => some { s with cache := item.run s.cache, queue := queue }
    | [] => none
  | .expire key => some { s with cache := Function.update s.cache key none }

/-- `DomainService.IsBanned` while nothing else happens. -/
def State.isBanned (s : State) (domain : String) : Bool :=
  if s.cache (getBannedDomainKey domain) = some true then true else domain ∈ s.bannedDomains

/-! ## The cache once the queue has run -/

/-- The cache once the queue has run. -/
def State.settled (s : State) : String → Option Bool := s.queue.foldl WorkItem.run s.cache

/-- A `Ban` or `Unban` of the domain has still to queue the removal of its entry. -/
def State.Removes (s : State) (domain : String) : Prop := Call.changed domain ∈ s.calls

/-- The entry of the domain will say that it is banned only if it is, or will be removed. -/
def SettlesAt (s : State) (domain : String) : Prop :=
  s.settled (getBannedDomainKey domain) = some true → domain ∈ s.bannedDomains ∨ s.Removes domain

/-- Every entry settles. -/
def Settles (s : State) : Prop := ∀ domain, SettlesAt s domain

/-- The call is not an `IsBanned` that has read of a ban which is lifted now, and whose entry no
    call in progress will remove. -/
def InTime (s : State) : Event → Prop
  | .queueBackgroundWorkItem i =>
    match s.calls[i]? with
    | some (.verdict domain true) => domain ∈ s.bannedDomains ∨ s.Removes domain
    | _ => True
  | _ => True

instance (s : State) (domain : String) : Decidable (s.Removes domain) :=
  inferInstanceAs (Decidable (_ ∈ s.calls))

instance (s : State) (e : Event) : Decidable (InTime s e) := by
  unfold InTime
  split
  · split <;> infer_instance
  · infer_instance

variable {s t : State} {e : Event} {es : List Event} {domain : String} {i : ℕ} {call : Call}

theorem getBannedDomainKey_inj {name name' : String}
    (h : getBannedDomainKey name = getBannedDomainKey name') : name = name' := by
  unfold getBannedDomainKey at h
  exact String.append_right_inj _ |>.mp h

theorem run_set_apply (cache : String → Option Bool) (key key' : String) (data : Bool) :
    (WorkItem.set key data).run cache key' = if key' = key then some data else cache key' :=
  Function.update_apply cache key (some data) key'

theorem run_remove_apply (cache : String → Option Bool) (key key' : String) :
    (WorkItem.remove key).run cache key' = if key' = key then none else cache key' :=
  Function.update_apply cache key none key'

/-- The work items bring no ban that is not there without an entry of the cache. -/
theorem foldl_run_mono {cache cache' : String → Option Bool} (queue : List WorkItem)
    (hle : ∀ key, cache' key = some true → cache key = some true) {key : String}
    (h : queue.foldl WorkItem.run cache' key = some true) :
    queue.foldl WorkItem.run cache key = some true := by
  induction queue generalizing cache cache' with
  | nil => exact hle key h
  | cons item queue ih =>
    refine ih ?_ h
    intro key' hkey'
    cases item with
    | set key₀ data =>
      rw [run_set_apply] at hkey' ⊢
      split_ifs at hkey' ⊢ with hk
      · exact hkey'
      · exact hle key' hkey'
    | remove key₀ =>
      rw [run_remove_apply] at hkey' ⊢
      split_ifs at hkey' ⊢ with hk
      exact hle key' hkey'

/-- The work item of a call comes last. -/
theorem step_queueBackgroundWorkItem (h : step s (.queueBackgroundWorkItem i) = some t) :
    ∃ call, s.calls[i]? = some call ∧ t.bannedDomains = s.bannedDomains ∧
      t.calls = s.calls.eraseIdx i ∧ t.settled = call.workItem.run s.settled := by
  unfold step at h
  cases hi : s.calls[i]? with
  | none => simp [hi] at h
  | some call =>
    simp only [hi, Option.some.injEq] at h
    subst h
    refine ⟨call, rfl, rfl, rfl, ?_⟩
    simp [State.settled]

/-- A removal that is still to be queued is so after another call has queued its item. -/
theorem mem_eraseIdx_of_ne {calls : List Call} {call' : Call} (hi : calls[i]? = some call)
    (hne : call' ≠ call) (hmem : call' ∈ calls) : call' ∈ calls.eraseIdx i := by
  obtain ⟨j, hj⟩ := List.mem_iff_getElem?.mp hmem
  have hij : j ≠ i := by
    rintro rfl
    exact hne (Option.some.inj (hj.symm.trans hi))
  exact List.mem_eraseIdx_iff_getElem?.mpr ⟨j, hij, hj⟩

/-! ## One step -/

theorem Settles.mono (hs : Settles s)
    (hsettled : ∀ key, t.settled key = some true → s.settled key = some true)
    (hkeep : ∀ domain, domain ∈ s.bannedDomains ∨ s.Removes domain →
      domain ∈ t.bannedDomains ∨ t.Removes domain) : Settles t :=
  fun domain h => hkeep domain (hs domain (hsettled _ h))

/-- The entries of the other domains are as they were. -/
theorem settlesAt_of_ne (hs : Settles s) (hi : s.calls[i]? = some call)
    (hbanned : t.bannedDomains = s.bannedDomains) (hcalls : t.calls = s.calls.eraseIdx i)
    (hsettled : t.settled (getBannedDomainKey domain) = s.settled (getBannedDomainKey domain))
    (hne : .changed domain ≠ call) : SettlesAt t domain := by
  intro h
  rw [hsettled] at h
  rw [hbanned, State.Removes, hcalls]
  exact (hs domain h).imp_right (mem_eraseIdx_of_ne hi hne)

theorem settles_queue_changed {name : String} (hs : Settles s)
    (hi : s.calls[i]? = some (.changed name)) (hbanned : t.bannedDomains = s.bannedDomains)
    (hcalls : t.calls = s.calls.eraseIdx i)
    (hsettled : t.settled = (Call.changed name).workItem.run s.settled) : Settles t := by
  intro domain
  have hentry := run_remove_apply s.settled (getBannedDomainKey name) (getBannedDomainKey domain)
  by_cases hname : domain = name
  · subst hname
    intro h
    rw [hsettled, Call.workItem, hentry, if_pos rfl] at h
    cases h
  · refine settlesAt_of_ne hs hi hbanned hcalls ?_ (by simpa using hname)
    rw [hsettled, Call.workItem, hentry, if_neg fun hk => hname (getBannedDomainKey_inj hk)]

theorem settles_queue_verdict {name : String} {banned : Bool} (hs : Settles s)
    (hi : s.calls[i]? = some (.verdict name banned)) (hbanned : t.bannedDomains = s.bannedDomains)
    (hcalls : t.calls = s.calls.eraseIdx i)
    (hsettled : t.settled = (Call.verdict name banned).workItem.run s.settled) :
    Settles t ↔ (banned = true → name ∈ s.bannedDomains ∨ s.Removes name) := by
  have hentry := run_set_apply s.settled (getBannedDomainKey name)
  have hremoves : ∀ domain, t.Removes domain ↔ s.Removes domain := by
    intro domain
    unfold State.Removes
    rw [hcalls]
    exact ⟨List.mem_of_mem_eraseIdx, mem_eraseIdx_of_ne hi (by simp)⟩
  constructor
  · rintro h rfl
    rw [← hbanned, ← hremoves]
    apply h name
    rw [hsettled, Call.workItem, hentry, if_pos rfl]
  · intro h domain
    by_cases hname : domain = name
    · subst hname
      intro htrue
      rw [hsettled, Call.workItem, hentry, if_pos rfl] at htrue
      rw [hbanned, hremoves]
      exact h (Option.some.inj htrue)
    · refine settlesAt_of_ne hs hi hbanned hcalls ?_ (by simp)
      rw [hsettled, Call.workItem, hentry, if_neg fun hk => hname (getBannedDomainKey_inj hk)]

theorem settles_step (hs : Settles s) (h : step s e = some t) : Settles t ↔ InTime s e := by
  cases e with
  | queueBackgroundWorkItem i =>
    obtain ⟨call, hi, hbanned, hcalls, hsettled⟩ := step_queueBackgroundWorkItem h
    simp only [InTime, hi]
    cases call with
    | changed name =>
      exact iff_of_true (settles_queue_changed hs hi hbanned hcalls hsettled) trivial
    | verdict name banned =>
      rw [settles_queue_verdict hs hi hbanned hcalls hsettled]
      cases banned <;> simp
  | ban name =>
    obtain rfl := Option.some.inj h
    refine iff_of_true (hs.mono (fun _ => id) ?_) trivial
    intro domain hdomain
    refine hdomain.imp ?_ (List.mem_append_left _)
    intro hmem
    show domain ∈ if name ∈ s.bannedDomains then _ else _
    split_ifs
    · exact hmem
    · exact List.mem_append_left _ hmem
  | unban name =>
    obtain rfl := Option.some.inj h
    refine iff_of_true (hs.mono (fun _ => id) ?_) trivial
    rintro domain (hmem | hmem)
    · by_cases hname : domain = name
      · subst hname
        exact Or.inr (List.mem_append_right _ (List.mem_singleton_self _))
      · exact Or.inl (List.mem_filter.mpr ⟨hmem, decide_eq_true hname⟩)
    · exact Or.inr (List.mem_append_left _ hmem)
  | isBanned domain =>
    obtain rfl := Option.some.inj h
    refine iff_of_true (hs.mono (fun _ => id) ?_) trivial
    intro domain hdomain
    exact hdomain.imp_right (List.mem_append_left _)
  | runWorkItem =>
    unfold step at h
    cases hqueue : s.queue with
    | nil => simp [hqueue] at h
    | cons item queue =>
      simp only [hqueue, Option.some.injEq] at h
      subst h
      refine iff_of_true (hs.mono ?_ fun _ => id) trivial
      intro key hkey
      rwa [State.settled, hqueue]
  | expire key =>
    obtain rfl := Option.some.inj h
    refine iff_of_true (hs.mono ?_ fun _ => id) trivial
    intro key' hkey'
    refine foldl_run_mono s.queue ?_ hkey'
    intro key₀ hkey₀
    have hentry := Function.update_apply s.cache key none key₀
    rw [show Function.update s.cache key none key₀ = some true from hkey₀] at hentry
    split_ifs at hentry
    exact hentry.symm

/-! ## Whole runs -/

/-- No call is in progress and the queue is empty. -/
def Quiet (s : State) : Prop := s.calls = [] ∧ s.queue = []

/-- The cache bans no domain that is not in the table, and `DomainService.IsBanned` answers what
    the table says. -/
def Lifted (s : State) : Prop :=
  ∀ domain, (s.cache (getBannedDomainKey domain) = some true → domain ∈ s.bannedDomains) ∧
    (s.isBanned domain = true ↔ domain ∈ s.bannedDomains)

theorem Settles.lifted (hs : Settles s) (hquiet : Quiet s) : Lifted s := by
  intro domain
  have hcache : s.cache (getBannedDomainKey domain) = some true → domain ∈ s.bannedDomains := by
    intro h
    have hsettled : s.settled (getBannedDomainKey domain) = some true := by
      rwa [State.settled, hquiet.2]
    refine (hs domain hsettled).resolve_right ?_
    unfold State.Removes
    rw [hquiet.1]
    exact List.not_mem_nil
  refine ⟨hcache, ?_⟩
  unfold State.isBanned
  split_ifs with h
  · exact iff_of_true rfl (hcache h)
  · exact decide_eq_true_iff

theorem run_settles_iff :
    Run step (fun s _ => Settles s) .init es s ∧ Settles s ↔ Run step InTime .init es s :=
  Run.everywhere_iff (fun _ => True) trivial (fun _ h => absurd h (by simp [State.settled, State.init]))
    (fun _ _ _ _ _ => trivial) (fun _ _ _ _ hs h => settles_step hs h)

/-- **An unban takes effect exactly as long as no `IsBanned` queues its verdict late.** In every
    run: the cache settles in every state exactly if every step is in time, and then it bans no
    domain that is not in the table whenever no call is in progress and the queue is empty. -/
theorem settles_iff (es : List Event) (s : State) :
    (Run step (fun s _ => Settles s) .init es s ∧ Settles s ↔ Run step InTime .init es s) ∧
    (Run step InTime .init es s → Quiet s → Lifted s) := by
  refine ⟨run_settles_iff, ?_⟩
  intro hrun hquiet
  exact (run_settles_iff.mpr hrun).2.lifted hquiet

/-- A domain is banned, looked up and unbanned, one after the other. -/
def unbanned : List Event :=
  [.ban "evil.com", .queueBackgroundWorkItem 0, .isBanned "evil.com", .queueBackgroundWorkItem 0,
    .unban "evil.com", .queueBackgroundWorkItem 0, .runWorkItem, .runWorkItem, .runWorkItem]

theorem settles_iff_unbanned :
    ∃ s, Run step InTime .init unbanned s ∧ Quiet s ∧ Lifted s := by
  have hrun : ((unbanned.foldlM (guarded step InTime) .init).map fun s => (s.calls, s.queue)) =
      some ([], []) := by
    decide +kernel
  obtain ⟨s, hs, h⟩ := Option.map_eq_some_iff.mp hrun
  have hquiet : Quiet s := Prod.mk.inj h
  have hs := run_iff_foldlM_guarded.mpr hs
  exact ⟨s, hs, hquiet, (settles_iff unbanned s).2 hs hquiet⟩

/-- The domain is looked up before it is unbanned, and the verdict comes into the queue after the
    removal. -/
def lateVerdict : List Event :=
  [.ban "evil.com", .queueBackgroundWorkItem 0, .isBanned "evil.com", .unban "evil.com",
    .queueBackgroundWorkItem 1, .queueBackgroundWorkItem 0, .runWorkItem, .runWorkItem, .runWorkItem]

/-- The domain is not in the table, and `DomainService.IsBanned` says that it is banned. -/
theorem late_verdict :
    ∃ s, Run step always .init lateVerdict s ∧ Quiet s ∧ "evil.com" ∉ s.bannedDomains ∧
      s.cache (getBannedDomainKey "evil.com") = some true ∧ s.isBanned "evil.com" = true := by
  have hrun : ((lateVerdict.foldlM step .init).map fun s =>
      ((s.calls, s.queue), s.bannedDomains, s.cache (getBannedDomainKey "evil.com"))) =
        some (([], []), [], some true) := by
    decide +kernel
  obtain ⟨s, hs, h⟩ := Option.map_eq_some_iff.mp hrun
  obtain ⟨hquiet, hrest⟩ := Prod.mk.inj h
  obtain ⟨hbanned, hcache⟩ := Prod.mk.inj hrest
  refine ⟨s, run_iff_foldlM.mpr hs, Prod.mk.inj hquiet, ?_, hcache, ?_⟩
  · rw [hbanned]
    exact List.not_mem_nil
  · rw [State.isBanned, if_pos hcache]

end Shortener.Admin.Unban
