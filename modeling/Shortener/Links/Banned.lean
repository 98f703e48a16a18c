import Shortener.Admin.Bans
import Shortener.Links.Database

/-!
# No links to banned domains

The shards together with the admin service and its cache. `Create` and `Update` of `UrlService`
call `DomainService.IsBanned` with the host of the URI before they run their first statement,
and go on only if it returns false.

* `inv_run`: a call that has got its domain has passed `IsBanned` for the host of its URI.
* `ban_not_bypassed`: an execution of `IsBanned` does not return false if the domain is banned
  throughout, and a call that starts after `Ban` stores no link to the domain before `Unban`.
-/

namespace Shortener.Links.Banned

open Shortener.Common Shortener.DotNet Shortener.Codec

/-- The origin of a call is its execution of `IsBanned`, if it gets there. -/
structure State where
  admin : Admin.State
  shards : ℤ → Shard (Option ℕ)

/-- No domain is banned, and the shards are empty. -/
def State.init : State := ⟨.init, fun _ => ⟨.init, []⟩⟩

/-- A shard is in another state. -/
def State.setShard (s : State) (r : ℤ) (shard : Shard (Option ℕ)) : State :=
  { s with shards := Function.update s.shards r shard }

@[simp] theorem State.setShard_self (s : State) (r : ℤ) (shard : Shard (Option ℕ)) :
    (s.setShard r shard).shards r = shard := Function.update_self _ _ _

theorem State.setShard_of_ne (s : State) {r r' : ℤ} (h : r' ≠ r) (shard : Shard (Option ℕ)) :
    (s.setShard r shard).shards r' = s.shards r' := Function.update_of_ne h _ _

/-- What can happen next. -/
inductive Event
  | admin (e : Admin.Event)
  /-- A request arrives at shard `r`. -/
  | receive (r : ℤ) (request : Request)
  /-- A step of shard `r` that is not the arrival of a request. -/
  | shard (r : ℤ) (e : Links.Event (Option ℕ))
  deriving DecidableEq, Repr

/-- `IsBanned` has returned false to the call. -/
def passed (s : State) (call : Call (Option ℕ)) : Bool :=
  match call.origin with
  | some n => (s.admin.checks[n]?).any fun check => check.outcome = .returned false
  | none => false

/-- A call runs `GetOrAdd` only after `IsBanned`. -/
def allows (s : State) (r : ℤ) : Links.Event (Option ℕ) → Bool
  | .receive _ _ => false
  | .getOrAdd i => ((s.shards r).calls[i]?).any (passed s)
  | _ => true

/-- A step of the admin or of a shard. -/
def step (env : Globalization) (tryCreate : String → Option Uri) (s : State) :
    Event → Option State
  | .admin e => (Admin.step s.admin e).map fun admin => { s with admin := admin }
  | .receive r request =>
    match request.uri tryCreate with
    | some uri => do
      let admin ← Admin.step s.admin (.isBanned uri.host)
      let shard ← Links.step env tryCreate (s.shards r)
        (.receive (some s.admin.checks.length) request)
      some ({ s with admin := admin }.setShard r shard)
    | none => do
      let shard ← Links.step env tryCreate (s.shards r) (.receive none request)
      some (s.setShard r shard)
  | .shard r e =>
    if allows s r e then (Links.step env tryCreate (s.shards r) e).map (s.setShard r) else none

/-! ## What a step does -/

variable {env : Globalization} {tryCreate : String → Option Uri} {s t : State} {e : Event}
  {es : List Event} {d : String} {n : ℕ} {r : ℤ} {call : Call (Option ℕ)}

/-- The admin service rests or takes a step of its own. -/
theorem step_admin (h : step env tryCreate s e = some t) :
    t.admin = s.admin ∨ ∃ e', Admin.step s.admin e' = some t.admin ∧
      ∀ d, e' = .unban d → e = .admin (.unban d) := by
  cases e with
  | admin e' =>
    obtain ⟨admin, hadmin, rfl⟩ := Option.map_eq_some_iff.mp h
    right
    refine ⟨e', hadmin, ?_⟩
    intro d he
    rw [he]
  | receive r request =>
    simp only [step] at h
    split at h
    · rename_i uri _
      obtain ⟨admin, hadmin, h⟩ := Option.bind_eq_some_iff.mp h
      obtain ⟨shard, -, h⟩ := Option.bind_eq_some_iff.mp h
      obtain rfl := Option.some.inj h
      exact .inr ⟨.isBanned uri.host, hadmin, by simp⟩
    · obtain ⟨shard, -, h⟩ := Option.bind_eq_some_iff.mp h
      obtain rfl := Option.some.inj h
      exact .inl rfl
  | shard r e' =>
    simp only [step, Option.ite_none_right_eq_some] at h
    obtain ⟨-, h⟩ := h
    obtain ⟨shard, -, rfl⟩ := Option.map_eq_some_iff.mp h
    exact .inl rfl

theorem passed_eq_true (h : passed s call = true) :
    ∃ n check, call.origin = some n ∧ s.admin.checks[n]? = some check ∧
      check.outcome = .returned false := by
  unfold passed at h
  split at h
  · rename_i n hn
    rw [Option.any_eq_true] at h
    obtain ⟨check, hcheck, houtcome⟩ := h
    exact ⟨n, check, hn, hcheck, of_decide_eq_true houtcome⟩
  · cases h

/-- A request starts a call, and the execution of `IsBanned` for its URI, if it has one. -/
theorem step_receive {request : Request} (h : step env tryCreate s (.receive r request) = some t) :
    ∃ origin shard, Links.step env tryCreate (s.shards r) (.receive origin request) = some shard ∧
      t.shards = (s.setShard r shard).shards ∧
      ∀ n, origin = some n → ∃ uri, request.uri tryCreate = some uri ∧
        t.admin.checks[n]? = some ⟨uri.host, [], .running⟩ := by
  simp only [step] at h
  split at h
  · rename_i uri huri
    obtain ⟨admin, hadmin, h⟩ := Option.bind_eq_some_iff.mp h
    obtain ⟨shard, hshard, h⟩ := Option.bind_eq_some_iff.mp h
    obtain rfl := Option.some.inj h
    obtain rfl := Option.some.inj hadmin
    refine ⟨_, shard, hshard, rfl, ?_⟩
    intro n hn
    obtain rfl := Option.some.inj hn
    exact ⟨uri, huri, List.getElem?_concat_length⟩
  · obtain ⟨shard, hshard, h⟩ := Option.bind_eq_some_iff.mp h
    obtain rfl := Option.some.inj h
    exact ⟨none, shard, hshard, rfl, fun n hn => by cases hn⟩

/-- A call of a shard was there before, has just got its domain after `IsBanned`, or has just
    arrived. -/
theorem step_calls (h : step env tryCreate s e = some t) (hcall : call ∈ (t.shards r).calls) :
    call ∈ (s.shards r).calls ∨
      (∃ call' ∈ (s.shards r).calls, passed s call' = true ∧ call'.origin = call.origin ∧
        call'.request = call.request) ∨
      (call.domainId = none ∧ ∀ n, call.origin = some n → ∃ uri,
        call.request.uri tryCreate = some uri ∧
        t.admin.checks[n]? = some ⟨uri.host, [], .running⟩) := by
  cases e with
  | admin e' =>
    obtain ⟨admin, -, rfl⟩ := Option.map_eq_some_iff.mp h
    exact .inl hcall
  | receive r' request =>
    obtain ⟨origin, shard, hshard, hshards, hcheck⟩ := step_receive h
    rw [hshards] at hcall
    by_cases hr : r = r'
    · subst hr
      rw [State.setShard_self] at hcall
      rcases Links.step_call hshard hcall with hcall | ⟨_, _, _, he, -⟩ | ⟨he, hdomain⟩
      · exact .inl hcall
      · cases he
      · obtain ⟨rfl, rfl⟩ := Links.Event.receive.inj he
        exact .inr (.inr ⟨hdomain, hcheck⟩)
    · rw [State.setShard_of_ne _ hr] at hcall
      exact .inl hcall
  | shard r' e' =>
    simp only [step, Option.ite_none_right_eq_some] at h
    obtain ⟨hallows, h⟩ := h
    obtain ⟨shard, hshard, rfl⟩ := Option.map_eq_some_iff.mp h
    by_cases hr : r = r'
    · subst hr
      rw [State.setShard_self] at hcall
      rcases Links.step_call hshard hcall with hcall | ⟨i, call', _, rfl, hi, -, -, rfl⟩ | ⟨rfl, -⟩
      · exact .inl hcall
      · simp only [allows, hi, Option.any_some] at hallows
        exact .inr (.inl ⟨call', List.mem_of_getElem? hi, hallows, rfl, rfl⟩)
      · cases hallows
    · rw [State.setShard_of_ne _ hr] at hcall
      exact .inl hcall

/-! ## Which calls have passed the check -/

/-- The execution of `IsBanned` of a call is about the host of its URI, and it has returned
    false if the call has got its domain. -/
def Checked (tryCreate : String → Option Uri) (s : State) (call : Call (Option ℕ)) : Prop :=
  ∀ n, call.origin = some n → ∃ uri check, call.request.uri tryCreate = some uri ∧
    s.admin.checks[n]? = some check ∧ check.domain = uri.host ∧
    (call.domainId ≠ none → check.outcome = .returned false)

/-- Every call in progress has passed its check. -/
def Inv (tryCreate : String → Option Uri) (s : State) : Prop :=
  ∀ r, ∀ call ∈ (s.shards r).calls, Checked tryCreate s call

theorem Checked.step (hc : Checked tryCreate s call) (h : step env tryCreate s e = some t) :
    Checked tryCreate t call := by
  intro n hn
  obtain ⟨uri, check, huri, hcheck, hdomain, hpassed⟩ := hc n hn
  rcases step_admin h with heq | ⟨e', hadmin, -⟩
  · exact ⟨uri, check, huri, by rwa [heq], hdomain, hpassed⟩
  · obtain ⟨check', hcheck', hdomain', hkept⟩ := Admin.step_kept hadmin hcheck
    exact ⟨uri, check', huri, hcheck', hdomain'.trans hdomain, fun hd => hkept _ (hpassed hd)⟩

theorem Inv.step (hi : Inv tryCreate s) (h : step env tryCreate s e = some t) :
    Inv tryCreate t := by
  intro r call hcall
  rcases step_calls h hcall with hcall | ⟨call', hcall', hpassed, horigin, hrequest⟩ | ⟨hnone, harrived⟩
  · exact (hi r call hcall).step h
  · -- the call has passed, and what has been returned to it stays
    have hchecked : Checked tryCreate s call := by
      intro n hn
      obtain ⟨uri, check, huri, hcheck, hdomain, -⟩ := hi r call' hcall' n (horigin.trans hn)
      refine ⟨uri, check, hrequest ▸ huri, hcheck, hdomain, ?_⟩
      intro _
      obtain ⟨m, check₁, hm, hcheck₁, houtcome⟩ := passed_eq_true hpassed
      obtain rfl := Option.some.inj (hm.symm.trans (horigin.trans hn))
      obtain rfl := Option.some.inj (hcheck.symm.trans hcheck₁)
      exact houtcome
    exact hchecked.step h
  · intro n hn
    obtain ⟨uri, huri, hcheck⟩ := harrived n hn
    exact ⟨uri, _, huri, hcheck, rfl, fun hd => absurd hnone hd⟩

theorem inv_run (h : Run (step env tryCreate) always .init es s) : Inv tryCreate s := by
  apply h.invariant
  · intro r call hcall
    cases hcall
  · intro s e t hi _ hs
    exact hi.step hs

/-! ## Bans -/

theorem bannedSince_run (h : Run (step env tryCreate) (fun _ e => e ≠ .admin (.unban d)) s es t)
    (hs : Admin.BannedSince d n s.admin) : Admin.BannedSince d n t.admin := by
  induction h with
  | nil => exact hs
  | snoc _ hne hstep ih =>
    rcases step_admin hstep with heq | ⟨e', hadmin, hunban⟩
    · rw [heq]
      exact ih
    · exact ih.step hadmin fun he => hne (hunban d he)

/-- A call with a URI runs its last statement only after `GetOrAdd`. -/
theorem domainId_of_execute {i : ℕ} (h : step env tryCreate s (.shard r (.execute i)) = some t)
    (hi : (s.shards r).calls[i]? = some call) {uri : Uri}
    (huri : call.request.uri tryCreate = some uri) :
    call.domainId ≠ none := by
  intro hnone
  have hexecute : call.execute (s.shards r).database = none := by
    unfold Call.execute
    rw [hnone]
    cases hrequest : call.request with
    | delete userId shortId =>
      rw [hrequest] at huri
      cases huri
    | _ => rfl
  simp [step, allows, Links.step, hi, hexecute] at h

/-- A call whose execution of `IsBanned` has started since the ban stores no link to the domain. -/
theorem host_ne_of_execute (hi : Inv tryCreate s) (hb : Admin.BannedSince d n s.admin) {m i : ℕ}
    (hm : n ≤ m) (hcall : (s.shards r).calls[i]? = some call) (horigin : call.origin = some m)
    (hexecute : step env tryCreate s (.shard r (.execute i)) = some t) {uri : Uri}
    (huri : call.request.uri tryCreate = some uri) : uri.host ≠ d := by
  intro hhost
  obtain ⟨uri', check, huri', hcheck, hdomain, hpassed⟩ :=
    hi r call (List.mem_of_getElem? hcall) m horigin
  obtain rfl := Option.some.inj (huri.symm.trans huri')
  have htruthful := hb.truthful m check hm hcheck (hdomain.trans hhost)
  exact htruthful.returned (hpassed (domainId_of_execute hexecute hcall huri))

/-- **A ban is not bypassed.** -/
theorem ban_not_bypassed (env : Globalization) (tryCreate : String → Option Uri) (d : String) :
    (∀ es₀ s s' es t, Run Admin.step always .init es₀ s → Admin.step s (.isBanned d) = some s' →
      Run Admin.step (fun s _ => d ∈ s.bannedDomains) s' es t →
      ∃ check, t.checks[s.checks.length]? = some check ∧ check.domain = d ∧
        check.outcome ≠ .returned false) ∧
    ∀ es₀ s₀ s₁ es₁ s₂ r request s₃ es₂ s₄ i call s₅,
      Run (step env tryCreate) always .init es₀ s₀ →
      step env tryCreate s₀ (.admin (.ban d)) = some s₁ →
      Run (step env tryCreate) (fun _ e => e ≠ .admin (.unban d)) s₁ es₁ s₂ →
      step env tryCreate s₂ (.receive r request) = some s₃ →
      Run (step env tryCreate) (fun _ e => e ≠ .admin (.unban d)) s₃ es₂ s₄ →
      (s₄.shards r).calls[i]? = some call → call.origin = some s₂.admin.checks.length →
      step env tryCreate s₄ (.shard r (.execute i)) = some s₅ →
      ∀ uri, call.request.uri tryCreate = some uri → uri.host ≠ d := by
  constructor
  · intro es₀ s s' es t _ hstart hrun
    obtain ⟨check, hn, hdomain, htruthful⟩ := Admin.isBanned_whole hstart hrun
    exact ⟨check, hn, hdomain, htruthful.returned⟩
  · intro es₀ s₀ s₁ es₁ s₂ r request s₃ es₂ s₄ i call s₅ h₀ hban h₁ hreceive h₂ hi horigin hexecute
      uri huri
    -- the domain is banned when the call arrives, and from then on
    have hbanned₁ : Admin.BannedSince d s₁.admin.checks.length s₁.admin := by
      obtain rfl := Option.some.inj hban
      exact .start (Admin.mem_bannedDomains_ban rfl)
    have hbanned₂ := Admin.BannedSince.start (bannedSince_run h₁ hbanned₁).banned
    have hrun := (Run.single (by simp) hreceive).append h₂
    have hbanned₄ := bannedSince_run hrun hbanned₂
    -- so the execution of `IsBanned` for the call has not returned false
    have hreached := ((h₀.snoc trivial hban).append h₁.always).append hrun.always
    exact host_ne_of_execute (inv_run hreached) hbanned₄ le_rfl hi horigin hexecute huri

/-! ## A stale entry -/

/-- A check reads the table before `evil.com` is banned, and its verdict is the last that
    reaches the cache. -/
def staleEntry : List Admin.Event :=
  [.isBanned "evil.com", .check 0 .getOrNullable, .check 0 (.get 0), .ban "evil.com",
    .removeDomainInBackground 0, .runWorkItem 0, .check 0 (.updateDomainInBackground 0),
    .runWorkItem 0]

/-- The steps of a later check that asks the admin service. -/
def laterCheck (n : ℕ) : List Admin.Event :=
  [.check n .getOrNullable, .check n (.get 0), .check n (.updateDomainInBackground 0),
    .check n .reply]

/-- `Uri.TryCreate` on one URL. -/
def exampleUri (s : String) : Option Uri :=
  if s = "https://example.com/" then some ⟨"https", "example.com", "/"⟩ else none

/-- User 7 creates a URL. -/
def exampleRequest : Request := .create 7 "https://example.com/"

/-- The check of the URL, and the domain of it. -/
def checkedCreate : List Event := (laterCheck 0).map .admin ++ [.shard 1 (.getOrAdd 0)]

theorem ban_not_bypassed_staleEntry :
    (∃ s s' t check, Run Admin.step always .init staleEntry s ∧
      s.cache (Admin.getBannedDomainKey "evil.com") = some false ∧
      Admin.step s (.isBanned "evil.com") = some s' ∧
      Run Admin.step (fun s _ => "evil.com" ∈ s.bannedDomains) s' (laterCheck 1) t ∧
      t.checks[1]? = some check ∧ check.outcome ≠ .returned false) ∧
    ∃ s₄ call uri, (s₄.shards 1).calls[0]? = some call ∧
      (step .invariantMode exampleUri s₄ (.shard 1 (.execute 0))).isSome ∧
      call.request.uri exampleUri = some uri ∧ uri.host ≠ "evil.com" := by
  constructor
  · have hs : ((staleEntry.foldlM Admin.step .init).bind fun s =>
        (Admin.step s (.isBanned "evil.com")).bind fun s' =>
          ((laterCheck 1).foldlM (guarded Admin.step fun s _ => "evil.com" ∈ s.bannedDomains) s').map
            fun _ => (s.checks.length, s.cache (Admin.getBannedDomainKey "evil.com"))) =
        some (1, some false) := by
      decide +kernel
    obtain ⟨s, hs, h⟩ := Option.bind_eq_some_iff.mp hs
    obtain ⟨s', hs', h⟩ := Option.bind_eq_some_iff.mp h
    obtain ⟨t, ht, h⟩ := Option.map_eq_some_iff.mp h
    obtain ⟨hlength, hcache⟩ := Prod.mk.inj h
    have hrun := run_iff_foldlM.mpr hs
    have hlater := run_iff_foldlM_guarded.mpr ht
    obtain ⟨check, hcheck, -, houtcome⟩ :=
      (ban_not_bypassed .invariantMode exampleUri "evil.com").1 _ s s' _ t hrun hs' hlater
    rw [hlength] at hcheck
    exact ⟨s, s', t, check, hrun, hcache, hs', hlater, hcheck, houtcome⟩
  · have hs : ((step .invariantMode exampleUri .init (.admin (.ban "evil.com"))).bind fun s₁ =>
        (step .invariantMode exampleUri s₁ (.receive 1 exampleRequest)).bind fun s₃ =>
          (checkedCreate.foldlM (guarded (step .invariantMode exampleUri)
            fun _ e => e ≠ .admin (.unban "evil.com")) s₃).bind fun s₄ =>
              (step .invariantMode exampleUri s₄ (.shard 1 (.execute 0))).map
                fun _ => (s₁.admin.checks.length, (s₄.shards 1).calls[0]?)) =
        some (0, some ⟨some 0, exampleRequest, some 1⟩) := by
      decide +kernel
    obtain ⟨s₁, hban, h⟩ := Option.bind_eq_some_iff.mp hs
    obtain ⟨s₃, hreceive, h⟩ := Option.bind_eq_some_iff.mp h
    obtain ⟨s₄, hrun, h⟩ := Option.bind_eq_some_iff.mp h
    obtain ⟨s₅, hexecute, h⟩ := Option.map_eq_some_iff.mp h
    obtain ⟨hlength, hcall⟩ := Prod.mk.inj h
    have huri : exampleRequest.uri exampleUri = some ⟨"https", "example.com", "/"⟩ := by
      decide +kernel
    refine ⟨s₄, _, _, hcall, Option.isSome_of_eq_some hexecute, huri, ?_⟩
    exact (ban_not_bypassed .invariantMode exampleUri "evil.com").2 [] .init s₁ [] s₁ 1
      exampleRequest s₃ _ s₄ 0 _ s₅ .nil hban .nil hreceive (run_iff_foldlM_guarded.mpr hrun) hcall
      (by rw [hlength]) hexecute _ huri

end Shortener.Links.Banned
