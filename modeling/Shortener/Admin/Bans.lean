import Shortener.Common.Run

/-!
# Banned domains

`BannedDomainService.Ban`, `Unban` and `AdminService.IsBanned` (`Shortener.Admin/Services`),
the cache entries that they set and remove in the background, and `DomainService.IsBanned`
(`Shortener.GrpcBackend/Services/DomainService.cs`). The calls run in any number of processes,
and their statements and the work items in any order.

* `Check.step_truthful`: while a domain is banned, no step of `IsBanned` finds otherwise.
* `isBanned_whole`: an execution of `IsBanned` during which the domain is banned never
  returns false, whatever the cache holds.
* `BannedSince.step`: the same for all executions that start while the domain is banned.
-/

namespace Shortener.Admin

open Shortener.Common

/-- `CacheUtils.GetBannedDomainKey`. -/
def getBannedDomainKey (name : String) : String := "Domain:" ++ name

/-- A work item: `CreateSetTask` or `CreateRemoveTask`. -/
inductive WorkItem
  | set (key : String) (data : Bool)
  | remove (key : String)
  deriving DecidableEq, Repr

/-- How far `AdminService.IsBanned` is with a request. -/
inductive Request
  | sent
  /-- `Get` has returned. -/
  | read (banned : Bool)
  /-- The work item is in the queue; the reply follows. -/
  | queued (banned : Bool)
  deriving DecidableEq, Repr

/-- What it has found. -/
def Request.banned : Request → Option Bool
  | .sent => none
  | .read banned => some banned
  | .queued banned => some banned

/-- How an execution of `IsBanned` has ended, if it has. -/
inductive Outcome
  | running
  | returned (banned : Bool)
  | threw
  deriving DecidableEq, Repr

/-- An execution of `DomainService.IsBanned`. -/
structure Check where
  domain : String
  /-- the attempts of `IsBannedAsync`; all but the last one have been given up -/
  requests : List Request
  outcome : Outcome
  deriving DecidableEq, Repr

/-- `MaxAttempts` of the retry policy of `AdminServiceClient`. -/
def maxAttempts : ℕ := 5

/-- The table, the cache, and what is in progress. -/
structure State where
  /-- the names in the table `BannedDomain` -/
  bannedDomains : List String
  cache : String → Option Bool
  /-- the work items of all queues that have not been run -/
  workItems : List WorkItem
  /-- the calls of `Ban` and `Unban` that have run their statement, by name -/
  calls : List String
  /-- all executions of `DomainService.IsBanned` -/
  checks : List Check

/-- No domain is banned, and nothing is cached. -/
def State.init : State := ⟨[], fun _ => none, [], [], []⟩

/-- A step of one execution of `DomainService.IsBanned`. -/
inductive CheckEvent
  /-- It reads the cache. -/
  | getOrNullable
  /-- `AdminService.IsBanned` reads the table for attempt `i`. -/
  | get (i : ℕ)
  /-- `UpdateDomainInBackground` for attempt `i`. -/
  | updateDomainInBackground (i : ℕ)
  /-- The reply to the last attempt arrives. -/
  | reply
  /-- The last attempt ends with `Unavailable` and is made again. -/
  | retry
  /-- It throws; a request that was sent is still handled. -/
  | fail
  deriving DecidableEq, Repr

/-- What can happen next. -/
inductive Event
  /-- The statement of `Ban`. -/
  | ban (name : String)
  /-- The statement of `Unban`. -/
  | unban (name : String)
  /-- `RemoveDomainInBackground` of call `i` of `Ban` or `Unban`, which then returns. -/
  | removeDomainInBackground (i : ℕ)
  /-- Call `i` of `Ban` or `Unban` throws. -/
  | failCall (i : ℕ)
  /-- An execution of `DomainService.IsBanned` starts. -/
  | isBanned (domain : String)
  | check (n : ℕ) (e : CheckEvent)
  /-- Work item `k` is run. -/
  | runWorkItem (k : ℕ)
  /-- Work item `k` is lost or throws. -/
  | loseWorkItem (k : ℕ)
  | expire (key : String)
  deriving DecidableEq, Repr

/-- What a step makes of the execution that takes it. -/
def Check.step (s : State) (check : Check) : CheckEvent → Option Check
  | .getOrNullable =>
    match check.requests, check.outcome with
    | [], .running =>
      if s.cache (getBannedDomainKey check.domain) = some true then
        some { check with outcome := .returned true }
      else some { check with requests := [.sent] }
    | _, _ => none
  | .get i =>
    match check.requests[i]? with
    | some .sent =>
      some { check with requests := check.requests.set i (.read (check.domain ∈ s.bannedDomains)) }
    | _ => none
  | .updateDomainInBackground i =>
    match check.requests[i]? with
    | some (.read banned) => some { check with requests := check.requests.set i (.queued banned) }
    | _ => none
  | .reply =>
    match check.requests.getLast?, check.outcome with
    | some (.queued banned), .running => some { check with outcome := .returned banned }
    | _, _ => none
  | .retry =>
    match check.outcome with
    | .running =>
      if check.requests ≠ [] ∧ check.requests.length < maxAttempts then
        some { check with requests := check.requests ++ [.sent] }
      else none
    | _ => none
  | .fail =>
    match check.outcome with
    | .running => some { check with outcome := .threw }
    | _ => none

/-- What it puts into the queue. -/
def Check.queues (check : Check) : CheckEvent → List WorkItem
  | .updateDomainInBackground i =>
    match check.requests[i]? with
    | some (.read banned) => [.set (getBannedDomainKey check.domain) banned]
    | _ => []
  | _ => []

/-- The cache after a work item. -/
def WorkItem.run (cache : String → Option Bool) : WorkItem → String → Option Bool
  | .set key data => Function.update cache key (some data)
  | .remove key => Function.update cache key none

/-- A step of the calls, the executions and the queues. -/
def step (s : State) : Event → Option State
  | .ban name =>
    -- ON CONFLICT("Name") DO NOTHING
    let bannedDomains := if name ∈ s.bannedDomains then s.bannedDomains else s.bannedDomains ++ [name]
    some { s with bannedDomains := bannedDomains, calls := s.calls ++ [name] }
  | .unban name =>
    some { s with
      bannedDomains := s.bannedDomains.filter fun banned => banned ≠ name
      calls := s.calls ++ [name] }
  | .removeDomainInBackground i =>
    match s.calls[i]? with
    | some name =>
      some { s with
        calls := s.calls.eraseIdx i
        workItems := s.workItems ++ [.remove (getBannedDomainKey name)] }
    | none => none
  | .failCall i => some { s with calls := s.calls.eraseIdx i }
  | .isBanned domain => some { s with checks := s.checks ++ [⟨domain, [], .running⟩] }
  | .check n e =>
    match s.checks[n]? with
    | some check =>
      (check.step s e).map fun check' =>
        { s with checks := s.checks.set n check', workItems := s.workItems ++ check.queues e }
    | none => none
  | .runWorkItem k =>
    match s.workItems[k]? with
    | some item => some { s with workItems := s.workItems.eraseIdx k, cache := item.run s.cache }
    | none => none
  | .loseWorkItem k => some { s with workItems := s.workItems.eraseIdx k }
  | .expire key => some { s with cache := Function.update s.cache key none }

/-! ## What a step does -/

section

variable {s t : State} {e : Event} {d : String} {n : ℕ} {check check' : Check} {ce : CheckEvent}
  {es : List Event}

theorem step_check (h : step s (.check n ce) = some t) :
    ∃ check check', s.checks[n]? = some check ∧ check.step s ce = some check' ∧
      t.checks = s.checks.set n check' ∧ t.bannedDomains = s.bannedDomains := by
  simp only [step] at h
  split at h
  · rename_i check hn
    obtain ⟨check', hcheck, rfl⟩ := Option.map_eq_some_iff.mp h
    exact ⟨check, check', hn, hcheck, rfl, rfl⟩
  · cases h

/-- The other steps leave the executions of `IsBanned` alone. -/
theorem step_checks_eq (h : step s e = some t) (hcheck : ∀ n ce, e ≠ .check n ce)
    (hstart : ∀ domain, e ≠ .isBanned domain) : t.checks = s.checks := by
  cases e with
  | check n ce => exact absurd rfl (hcheck n ce)
  | isBanned domain => exact absurd rfl (hstart domain)
  | removeDomainInBackground i =>
    simp only [step] at h
    split at h
    · obtain rfl := Option.some.inj h
      rfl
    · cases h
  | runWorkItem k =>
    simp only [step] at h
    split at h
    · obtain rfl := Option.some.inj h
      rfl
    · cases h
  | _ =>
    obtain rfl := Option.some.inj h
    rfl

/-- Only its own steps change an execution of `IsBanned`. -/
theorem step_checks (h : step s e = some t) (hn : s.checks[n]? = some check) :
    t.checks[n]? = some check ∨
      ∃ ce check', e = .check n ce ∧ check.step s ce = some check' ∧ t.checks[n]? = some check' := by
  have hlt : n < s.checks.length := (List.getElem?_eq_some_iff.mp hn).1
  cases e with
  | check m ce =>
    obtain ⟨check₁, check', hm, hcheck, ht, -⟩ := step_check h
    by_cases hmn : m = n
    · subst hmn
      obtain rfl := Option.some.inj (hn.symm.trans hm)
      right
      refine ⟨ce, check', rfl, hcheck, ?_⟩
      rw [ht, List.getElem?_set_self hlt]
    · left
      rw [ht, List.getElem?_set_ne hmn, hn]
  | isBanned domain =>
    obtain rfl := Option.some.inj h
    left
    show (s.checks ++ [_])[n]? = some check
    rw [List.getElem?_append_left hlt, hn]
  | _ =>
    left
    rw [step_checks_eq h (by simp) (by simp), hn]

/-- An execution that was not there before has just started. -/
theorem step_new (h : step s e = some t) (hn : s.checks[n]? = none) (ht : t.checks[n]? = some check) :
    check.requests = [] ∧ check.outcome = .running := by
  cases e with
  | isBanned domain =>
    obtain rfl := Option.some.inj h
    have hn' : s.checks.length ≤ n := List.getElem?_eq_none_iff.mp hn
    have ht' : (s.checks ++ [⟨domain, [], .running⟩])[n]? = some check := ht
    rw [List.getElem?_append_right hn'] at ht'
    obtain rfl := List.mem_singleton.mp (List.mem_of_getElem? ht')
    exact ⟨rfl, rfl⟩
  | check m ce =>
    obtain ⟨_, check', -, -, hchecks, -⟩ := step_check h
    rw [hchecks, List.getElem?_eq_none_iff.mpr] at ht
    · cases ht
    · rw [List.length_set]
      exact List.getElem?_eq_none_iff.mp hn
  | _ =>
    rw [step_checks_eq h (by simp) (by simp), hn] at ht
    cases ht

theorem Check.step_domain (h : check.step s ce = some check') : check'.domain = check.domain := by
  cases ce with
  | getOrNullable =>
    simp only [Check.step] at h
    split at h
    · split_ifs at h <;> obtain rfl := Option.some.inj h <;> rfl
    · cases h
  | retry =>
    simp only [Check.step] at h
    split at h
    · split_ifs at h
      obtain rfl := Option.some.inj h
      rfl
    · cases h
  | _ =>
    simp only [Check.step] at h
    split at h
    · obtain rfl := Option.some.inj h
      rfl
    · cases h

/-- What an execution has returned stays. -/
theorem Check.step_returned (h : check.step s ce = some check') {banned : Bool}
    (hreturned : check.outcome = .returned banned) : check'.outcome = .returned banned := by
  cases ce with
  | get i =>
    simp only [Check.step] at h
    split at h
    · obtain rfl := Option.some.inj h
      exact hreturned
    · cases h
  | updateDomainInBackground i =>
    simp only [Check.step] at h
    split at h
    · obtain rfl := Option.some.inj h
      exact hreturned
    · cases h
  | _ => simp [Check.step, hreturned] at h

/-- An execution keeps its domain and its result. -/
theorem step_kept (h : step s e = some t) (hn : s.checks[n]? = some check) :
    ∃ check', t.checks[n]? = some check' ∧ check'.domain = check.domain ∧
      ∀ banned, check.outcome = .returned banned → check'.outcome = .returned banned := by
  rcases step_checks h hn with hn | ⟨ce, check', -, hcheck, hn⟩
  · exact ⟨check, hn, rfl, fun _ houtcome => houtcome⟩
  · exact ⟨check', hn, Check.step_domain hcheck, fun _ => Check.step_returned hcheck⟩

/-- Only the statement of `Unban` lifts a ban. -/
theorem step_bannedDomains (h : step s e = some t) (hd : d ∈ s.bannedDomains) (hne : e ≠ .unban d) :
    d ∈ t.bannedDomains := by
  cases e with
  | ban name =>
    obtain rfl := Option.some.inj h
    show d ∈ if name ∈ s.bannedDomains then _ else _
    split_ifs
    · exact hd
    · exact List.mem_append_left _ hd
  | unban name =>
    obtain rfl := Option.some.inj h
    have hname : d ≠ name := by
      rintro rfl
      exact hne rfl
    exact List.mem_filter.mpr ⟨hd, decide_eq_true hname⟩
  | check m ce =>
    obtain ⟨_, _, -, -, -, ht⟩ := step_check h
    rwa [ht]
  | removeDomainInBackground i =>
    simp only [step] at h
    split at h
    · obtain rfl := Option.some.inj h
      exact hd
    · cases h
  | runWorkItem k =>
    simp only [step] at h
    split at h
    · obtain rfl := Option.some.inj h
      exact hd
    · cases h
  | _ =>
    obtain rfl := Option.some.inj h
    exact hd

theorem mem_bannedDomains_ban (h : step s (.ban d) = some t) : d ∈ t.bannedDomains := by
  obtain rfl := Option.some.inj h
  show d ∈ if d ∈ s.bannedDomains then _ else _
  split_ifs with hd
  · exact hd
  · exact List.mem_append_right _ (List.mem_singleton_self d)

/-! ## A ban during a whole execution -/

/-- Nothing in the execution says that the domain is not banned. -/
structure Check.Truthful (check : Check) : Prop where
  requests : ∀ request ∈ check.requests, request.banned ≠ some false
  returned : check.outcome ≠ .returned false

theorem Check.Truthful.set (hc : check.Truthful) {i : ℕ} {request : Request}
    (hrequest : request.banned ≠ some false) :
    Check.Truthful { check with requests := check.requests.set i request } := by
  refine ⟨?_, hc.returned⟩
  intro request' hmem
  rcases List.mem_or_eq_of_mem_set hmem with hmem | rfl
  · exact hc.requests request' hmem
  · exact hrequest

/-- The cache is believed only where it says `true`; the rest comes from the table. -/
theorem Check.step_truthful (h : check.step s ce = some check') (hc : check.Truthful)
    (hd : check.domain ∈ s.bannedDomains) : check'.Truthful := by
  cases ce with
  | getOrNullable =>
    simp only [Check.step] at h
    split at h
    · split_ifs at h
      · obtain rfl := Option.some.inj h
        exact ⟨hc.requests, by simp⟩
      · obtain rfl := Option.some.inj h
        exact ⟨by simp [Request.banned], hc.returned⟩
    · cases h
  | get i =>
    simp only [Check.step] at h
    split at h
    · obtain rfl := Option.some.inj h
      exact hc.set (by simp [Request.banned, hd])
    · cases h
  | updateDomainInBackground i =>
    simp only [Check.step] at h
    split at h
    · rename_i banned hbanned
      obtain rfl := Option.some.inj h
      have hread := hc.requests (.read banned) (List.mem_of_getElem? hbanned)
      exact hc.set (show some banned ≠ some false from hread)
    · cases h
  | reply =>
    simp only [Check.step] at h
    split at h
    · rename_i banned hlast _
      obtain rfl := Option.some.inj h
      have hbanned := hc.requests _ (List.mem_of_getLast? hlast)
      refine ⟨hc.requests, ?_⟩
      simpa [Request.banned] using hbanned
    · cases h
  | retry =>
    simp only [Check.step] at h
    split at h
    · split_ifs at h
      obtain rfl := Option.some.inj h
      refine ⟨?_, hc.returned⟩
      intro request hmem
      rcases List.mem_append.mp hmem with hmem | hmem
      · exact hc.requests request hmem
      · obtain rfl := List.mem_singleton.mp hmem
        simp [Request.banned]
    · cases h
  | fail =>
    simp only [Check.step] at h
    split at h
    · obtain rfl := Option.some.inj h
      exact ⟨hc.requests, by simp⟩
    · cases h

/-- All executions of `IsBanned` for `d` from number `n` on are truthful. -/
structure BannedSince (d : String) (n : ℕ) (s : State) : Prop where
  banned : d ∈ s.bannedDomains
  truthful : ∀ m check, n ≤ m → s.checks[m]? = some check → check.domain = d → check.Truthful

/-- A domain is banned; nothing is said of executions to come. -/
theorem BannedSince.start (hd : d ∈ s.bannedDomains) : BannedSince d s.checks.length s := by
  refine ⟨hd, ?_⟩
  intro m check hm hcheck
  rw [List.getElem?_eq_none_iff.mpr hm] at hcheck
  cases hcheck

theorem BannedSince.step_truthful (hi : BannedSince d n s) (h : step s e = some t) {m : ℕ}
    (hm : n ≤ m) (ht : t.checks[m]? = some check) (hdomain : check.domain = d) :
    check.Truthful := by
  cases hs : s.checks[m]? with
  | none =>
    obtain ⟨hrequests, houtcome⟩ := step_new h hs ht
    exact ⟨by simp [hrequests], by simp [houtcome]⟩
  | some check₀ =>
    rcases step_checks h hs with hkept | ⟨ce, check', -, hcheck, hstep⟩
    · obtain rfl := Option.some.inj (hkept.symm.trans ht)
      exact hi.truthful m _ hm hs hdomain
    · obtain rfl := Option.some.inj (hstep.symm.trans ht)
      rw [Check.step_domain hcheck] at hdomain
      exact Check.step_truthful hcheck (hi.truthful m check₀ hm hs hdomain) (hdomain ▸ hi.banned)

theorem BannedSince.step (hi : BannedSince d n s) (h : step s e = some t) (hne : e ≠ .unban d) :
    BannedSince d n t :=
  ⟨step_bannedDomains h hi.banned hne, fun _ _ hm ht => hi.step_truthful h hm ht⟩

/-- Execution `n` is for the domain, and truthful. -/
def TruthfulAt (d : String) (n : ℕ) (s : State) : Prop :=
  ∃ check, s.checks[n]? = some check ∧ check.domain = d ∧ check.Truthful

theorem TruthfulAt.step (hc : TruthfulAt d n s) (h : step s e = some t) (hd : d ∈ s.bannedDomains) :
    TruthfulAt d n t := by
  obtain ⟨check, hn, rfl, htruthful⟩ := hc
  rcases step_checks h hn with hn | ⟨ce, check', -, hcheck, hn⟩
  · exact ⟨check, hn, rfl, htruthful⟩
  · exact ⟨check', hn, Check.step_domain hcheck, Check.step_truthful hcheck htruthful hd⟩

/-- An execution of `IsBanned` during which the domain is banned does not return false. -/
theorem isBanned_whole {s' : State} (h : step s (.isBanned d) = some s')
    (hr : Run step (fun s _ => d ∈ s.bannedDomains) s' es t) : TruthfulAt d s.checks.length t := by
  obtain rfl := Option.some.inj h
  have hstart : TruthfulAt d s.checks.length
      { s with checks := s.checks ++ [⟨d, [], .running⟩] } :=
    ⟨_, List.getElem?_concat_length, rfl, by simp, by simp⟩
  exact hr.invariant hstart fun _ _ _ hc hd hs => hc.step hs hd

end

end Shortener.Admin
