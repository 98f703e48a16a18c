import Shortener.Limits.HttpRateLimiter
import Shortener.Limits.Sliding

/-!
# Requests with different rules

Requests that are checked against different rules charge the sorted sets of one Redis: those of
`HttpRateLimiter` (`Shortener.FrontendShared/Middleware/HttpRateLimiter.cs`) for different paths,
and those of fields of both types in the GraphQL frontend.

* `RuledCall.keyInv`: the sorted set of a key holds the admitted calls that were charged to it.
* `quota_kept`: no window of a rule holds more admitted calls than it says, whatever other rules
  the calls were checked against; and a call is refused only for a full window.
* `http_quota`: so it is with the requests that `HttpRateLimiter` lets through.
-/

namespace Shortener.Limits

open Shortener.Common Shortener.DotNet

/-! ## Calls with their rules -/

/-- A call of `IsLimited`. -/
structure RuledCall where
  rules : List RateLimitRule
  call : Call
  deriving DecidableEq

/-- Redis, and what has been admitted. -/
structure Shared where
  db : Redis
  /-- the calls that were not limited -/
  admitted : List RuledCall

/-- Redis is empty. -/
def Shared.init : Shared := ⟨fun _ => none, []⟩

/-- One call, with its own rules. -/
def Shared.step (s : Shared) (c : RuledCall) : Shared :=
  let (db, limited) := isLimited c.rules c.call.ip c.call.time s.db
  ⟨db, if limited then s.admitted else s.admitted ++ [c]⟩

/-- The state after a history of calls. -/
def sharedHistory (calls : List RuledCall) : Shared := calls.foldl Shared.step .init

/-- The call adds to the sorted set of the key, if it is admitted. -/
def RuledCall.Charges (key : String) (c : RuledCall) : Prop :=
  key ∈ c.rules.map fun rule => redisKey rule c.call.ip

instance (key : String) : DecidablePred (RuledCall.Charges key) := fun _ =>
  inferInstanceAs (Decidable (_ ∈ List.map _ _))

/-- The calls that add to the sorted set of the key. -/
def charged (key : String) (calls : List RuledCall) : List Call :=
  (calls.filter fun c => c.Charges key).map RuledCall.call

/-- The call is checked against the rule, or against one with the same key that is as tight. -/
def RuledCall.Obeys (rule : RateLimitRule) (c : RuledCall) : Prop :=
  ∃ rule' ∈ c.rules, rule'.pathKey = rule.pathKey ∧ rule'.windowSeconds = rule.windowSeconds ∧
    rule'.maxRequests ≤ rule.maxRequests

instance (rule : RateLimitRule) : DecidablePred (RuledCall.Obeys rule) := fun c =>
  inferInstanceAs (Decidable (∃ rule' ∈ c.rules, _))

/-- The calls that obey the rule. -/
def obeying (rule : RateLimitRule) (calls : List RuledCall) : List Call :=
  (calls.filter fun c => c.Obeys rule).map RuledCall.call

variable {rules : List RateLimitRule} {rule : RateLimitRule} {ip : IPAddress} {now : ℤ}
  {c : RuledCall} {past calls : List RuledCall} {s : Shared} {key : String} {digits : ℕ}

theorem RuledCall.Obeys.charges (h : c.Obeys rule) : c.Charges (redisKey rule c.call.ip) := by
  obtain ⟨rule', hrule', hpath, hwindow, -⟩ := h
  rw [← redisKey_congr hpath hwindow]
  exact List.mem_map_of_mem hrule'

/-- Calls that obey a rule are charged to its key. -/
theorem length_obeying_le (rule : RateLimitRule) (ip : IPAddress) (window t : ℤ)
    (calls : List RuledCall) :
    (inWindow ip window t (obeying rule calls)).length ≤
      (inWindow ip window t (charged (redisKey rule ip) calls)).length := by
  simp only [inWindow, obeying, charged, List.filter_map, List.length_map, List.filter_filter]
  rw [← List.countP_eq_length_filter, ← List.countP_eq_length_filter]
  apply List.countP_mono_left
  intro c _ h
  simp only [Function.comp_apply, Bool.and_eq_true, decide_eq_true_eq] at h ⊢
  obtain ⟨⟨rfl, htime⟩, hobeys⟩ := h
  exact ⟨⟨rfl, htime⟩, hobeys.charges⟩

/-! ## The sorted set of a key -/

theorem Shared.step_eq (s : Shared) (c : RuledCall) :
    s.step c = ⟨(isLimited c.rules c.call.ip c.call.time s.db).1,
      if (isLimited c.rules c.call.ip c.call.time s.db).2 then s.admitted
      else s.admitted ++ [c]⟩ := rfl

theorem charged_snoc_of_charges (h : c.Charges key) (calls : List RuledCall) :
    charged key (calls ++ [c]) = charged key calls ++ [c.call] := by
  simp [charged, List.filter_append, h]

theorem charged_snoc_of_not (h : ¬ c.Charges key) (calls : List RuledCall) :
    charged key (calls ++ [c]) = charged key calls := by
  simp [charged, List.filter_append, h]

/-- The sorted set of a rule's key and an address, after the calls `past`. -/
def KeyInv (rule : RateLimitRule) (ip : IPAddress) (now : ℤ) (past : List RuledCall) (s : Shared) :
    Prop :=
  RuleInv rule.windowSeconds ip now (past.map RuledCall.call)
    (charged (redisKey rule ip) s.admitted) (s.db (redisKey rule ip))

theorem KeyInv.step (hwindow : 1 ≤ rule.windowSeconds)
    (hclock : Clock digits (past.map RuledCall.call ++ [c.call]))
    (hi : KeyInv rule ip c.call.time.seconds past s) :
    KeyInv rule ip c.call.time.seconds (past ++ [c]) (s.step c) := by
  have hspec := isLimited_spec c.rules c.call.ip c.call.time s.db
  rw [Shared.step_eq]
  generalize isLimited c.rules c.call.ip c.call.time s.db = result at hspec ⊢
  obtain ⟨db, limited⟩ := result
  dsimp only at hspec ⊢
  have hlive : RuleInv _ _ _ _ _ _ := RuleInv.live hi
  unfold KeyInv
  rw [List.map_append, List.map_singleton]
  by_cases hcharges : c.Charges (redisKey rule ip)
  · -- the call is checked against a rule with this key
    obtain ⟨rule', hrule', hkey⟩ := List.mem_map.mp hcharges
    obtain ⟨rfl, -, hwindow'⟩ := redisKey_inj hkey
    cases limited with
    | true =>
      show RuleInv _ _ _ _ (charged (redisKey rule c.call.ip) s.admitted) (db _)
      rcases hspec.refused rfl rule' hrule' with h | h
      · rw [← hkey, h, hkey]
        exact hlive.past_append [c.call]
      · rw [← hkey, h, trimmed, trim, RateLimitRule.toWindow, hkey, hwindow']
        exact hlive.trim.past_append [c.call]
    | false =>
      show RuleInv _ _ _ _ (charged _ (s.admitted ++ [c])) (db _)
      rw [charged_snoc_of_charges hcharges, ← hkey, hspec.admitted rfl rule' hrule', trimmed, trim,
        RateLimitRule.toWindow, hkey, hwindow']
      exact hlive.trim.add hwindow hclock.seconds_le hclock.member_ne
  · have hframe : db (redisKey rule ip) = live c.call.time (s.db (redisKey rule ip)) :=
      hspec.frame _ hcharges
    have hsame : charged (redisKey rule ip) (if limited then s.admitted else s.admitted ++ [c]) =
        charged (redisKey rule ip) s.admitted := by
      split_ifs
      · rfl
      · exact charged_snoc_of_not hcharges _
    show RuleInv _ _ _ _ (charged _ (if limited then s.admitted else s.admitted ++ [c])) (db _)
    rw [hframe, hsame]
    exact hlive.past_append [c.call]

theorem sharedHistory_snoc (calls : List RuledCall) (c : RuledCall) :
    sharedHistory (calls ++ [c]) = (sharedHistory calls).step c := by
  simp [sharedHistory, List.foldl_append]

theorem RuledCall.keyInv (hwindow : 1 ≤ rule.windowSeconds)
    (hclock : Clock digits (calls.map RuledCall.call))
    (hnow : ∀ c ∈ calls, (c.call.time.seconds : ℤ) ≤ now) :
    KeyInv rule ip now calls (sharedHistory calls) := by
  induction calls using List.reverseRecOn generalizing now with
  | nil => exact ruleInv_nil _
  | append_singleton calls c ih =>
    rw [List.map_append, List.map_singleton] at hclock
    have hseconds : ∀ c' ∈ calls, (c'.call.time.seconds : ℤ) ≤ c.call.time.seconds :=
      fun c' hc' => Int.ofNat_le.mpr (hclock.seconds_le c'.call (List.mem_map_of_mem hc'))
    rw [sharedHistory_snoc]
    exact RuleInv.mono ((ih hclock.of_append hseconds).step hwindow hclock) (hnow c (by simp))

theorem sublist_admitted (calls : List RuledCall) : (sharedHistory calls).admitted.Sublist calls := by
  induction calls using List.reverseRecOn with
  | nil => exact .slnil
  | append_singleton calls c ih =>
    rw [sharedHistory_snoc, Shared.step_eq]
    show (if _ then (sharedHistory calls).admitted else _).Sublist _
    split_ifs
    · exact ih.trans (List.sublist_append_left _ _)
    · exact ih.append_right [c]

/-! ## Quotas -/

/-- What the script counts for a rule. -/
theorem zcard_trimmed_shared (hwindow : 1 ≤ rule.windowSeconds)
    (hclock : Clock digits ((calls ++ [c]).map RuledCall.call)) :
    zcard (trimmed c.call.time (sharedHistory calls).db rule c.call.ip) =
      (inWindow c.call.ip rule.windowSeconds c.call.time.seconds
        (charged (redisKey rule c.call.ip) (sharedHistory calls).admitted)).length := by
  rw [List.map_append, List.map_singleton] at hclock
  have hseconds : ∀ c' ∈ calls, (c'.call.time.seconds : ℤ) ≤ c.call.time.seconds :=
    fun c' hc' => Int.ofNat_le.mpr (hclock.seconds_le c'.call (List.mem_map_of_mem hc'))
  have hi : KeyInv rule c.call.ip _ _ _ := RuledCall.keyInv hwindow hclock.of_append hseconds
  refine (RuleInv.live hi).zcard_trim ?_
  intro call hcall
  obtain ⟨c', hc', rfl⟩ := List.mem_map.mp hcall
  exact hseconds c' ((sublist_admitted calls).subset (List.mem_of_mem_filter hc'))

/-- Each admitted call that obeys a rule came when its window had room. -/
theorem room_obeying (hwindow : 1 ≤ rule.windowSeconds)
    (hclock : Clock digits (calls.map RuledCall.call)) :
    SlidingWindow.Room rule.windowSeconds rule.maxRequests
      ((obeying rule (sharedHistory calls).admitted).map Call.event) := by
  induction calls using List.reverseRecOn with
  | nil => exact .nil
  | append_singleton calls c ih =>
    have hpast : Clock digits (calls.map RuledCall.call) := by
      rw [List.map_append] at hclock
      exact hclock.of_append
    have ih := ih hpast
    have hspec := isLimited_spec c.rules c.call.ip c.call.time (sharedHistory calls).db
    rw [sharedHistory_snoc, Shared.step_eq]
    show SlidingWindow.Room _ _ ((obeying rule (if _ then _ else _)).map Call.event)
    split_ifs with hlimited
    · exact ih
    · by_cases hobeys : c.Obeys rule
      · have hsnoc : obeying rule ((sharedHistory calls).admitted ++ [c]) =
            obeying rule (sharedHistory calls).admitted ++ [c.call] := by
          simp [obeying, List.filter_append, hobeys]
        rw [hsnoc, List.map_append, List.map_singleton]
        apply ih.snoc
        obtain ⟨rule', hrule', hpath, hwindow', hmax⟩ := hobeys
        have hroom : ¬ rule'.maxRequests ≤
            zcard (trimmed c.call.time (sharedHistory calls).db rule' c.call.ip) := by
          intro hfull
          exact hlimited (hspec.limited_iff.mpr ⟨rule', hrule', hfull⟩)
        rw [zcard_trimmed_shared (hwindow' ▸ hwindow) hclock, redisKey_congr hpath hwindow',
          hwindow'] at hroom
        have hle := length_obeying_le rule c.call.ip rule.windowSeconds c.call.time.seconds
          (sharedHistory calls).admitted
        show ((SlidingWindow.inWindow c.call.ip rule.windowSeconds c.call.time.seconds
          ((obeying rule (sharedHistory calls).admitted).map Call.event)).length : ℤ) < _
        rw [length_inWindow_event]
        omega
      · have hsnoc : obeying rule ((sharedHistory calls).admitted ++ [c]) =
            obeying rule (sharedHistory calls).admitted := by
          simp [obeying, List.filter_append, hobeys]
        rw [hsnoc]
        exact ih

/-- **Quotas hold whatever else is asked.** -/
theorem quota_kept (hclock : Clock digits (calls.map RuledCall.call)) :
    (∀ rule : RateLimitRule, 1 ≤ rule.windowSeconds → 0 ≤ rule.maxRequests → ∀ ip t,
      (inWindow ip rule.windowSeconds t
        (obeying rule (sharedHistory calls).admitted)).length ≤ rule.maxRequests) ∧
    ∀ earlier c later, calls = earlier ++ c :: later → (∀ rule ∈ c.rules, 1 ≤ rule.windowSeconds) →
      ((isLimited c.rules c.call.ip c.call.time (sharedHistory earlier).db).2 = true ↔
        ∃ rule ∈ c.rules, rule.maxRequests ≤
          (inWindow c.call.ip rule.windowSeconds c.call.time.seconds
            (charged (redisKey rule c.call.ip) (sharedHistory earlier).admitted)).length) := by
  constructor
  · intro rule hwindow hmax ip t
    rw [← length_inWindow_event]
    refine (room_obeying hwindow hclock).bound hmax ?_ ip t
    have hsublist : (obeying rule (sharedHistory calls).admitted).Sublist
        (calls.map RuledCall.call) :=
      (List.filter_sublist.trans (sublist_admitted calls)).map _
    exact hclock.events.sublist ((hsublist.map _).map _)
  · intro earlier c later hcalls hwindows
    have hclock' : Clock digits ((earlier ++ [c]).map RuledCall.call) := by
      rw [hcalls, List.append_cons, List.map_append] at hclock
      exact hclock.of_append
    rw [(isLimited_spec c.rules c.call.ip c.call.time (sharedHistory earlier).db).limited_iff]
    constructor
    · rintro ⟨rule, hrule, hfull⟩
      rw [zcard_trimmed_shared (hwindows rule hrule) hclock'] at hfull
      exact ⟨rule, hrule, hfull⟩
    · rintro ⟨rule, hrule, hfull⟩
      rw [← zcard_trimmed_shared (hwindows rule hrule) hclock'] at hfull
      exact ⟨rule, hrule, hfull⟩

/-- A strict call and a loose one charge the same key, and the strict rule is full then. -/
def twoRules : List RuledCall :=
  [⟨[⟨"/urls", "", 60, 1⟩], firstCall⟩, ⟨[⟨"/urls", "", 60, 5⟩, ⟨"", "^/", 10, 5⟩], secondCall⟩]

theorem clock_twoRules : Clock 3 (twoRules.map RuledCall.call) := clock_exampleCalls

theorem quota_kept_twoRules :
    (inWindow localhost 60 109 (obeying ⟨"/urls", "", 60, 1⟩
      (sharedHistory twoRules).admitted)).length ≤ (1 : ℤ) :=
  (quota_kept clock_twoRules).1 ⟨"/urls", "", 60, 1⟩ (by decide) (by decide) localhost 109

/-! ## The HTTP middleware -/

/-- A request that reaches `HttpRateLimiter`. -/
structure HttpRequest where
  path : String
  call : Call
  deriving DecidableEq

section

variable (tests : PathTests) (ignoredPaths : List String) (rules : List RateLimitRule)

/-- The path is one of the ignored ones. -/
def isIgnored (path : String) : Bool := ignoredPaths.any fun ignored => tests.isMatch path ignored

/-- `InvokeAsync`, and whether it calls `_next`; otherwise it answers 429. -/
def invokeAsync (db : Redis) (request : HttpRequest) : Redis × Bool :=
  if isIgnored tests ignoredPaths request.path then (db, true)
  else
    let applicableRules := getApplicableRules tests rules request.path
    if applicableRules.length > 0 then
      let (db, limited) := isLimited applicableRules request.call.ip request.call.time db
      (db, !limited)
    else (db, true)

/-- The request asks the limiter. -/
def Asks (request : HttpRequest) : Prop :=
  isIgnored tests ignoredPaths request.path = false ∧
    getApplicableRules tests rules request.path ≠ []

instance : DecidablePred (Asks tests ignoredPaths rules) := fun _ =>
  inferInstanceAs (Decidable (_ ∧ _))

/-- The call of `IsLimited` for a request. -/
def HttpRequest.ruled (request : HttpRequest) : RuledCall :=
  ⟨getApplicableRules tests rules request.path, request.call⟩

/-- The requests that are passed on. -/
def passedOn (requests : List HttpRequest) : List HttpRequest :=
  (trace (invokeAsync tests ignoredPaths rules) requests fun _ => none).filterMap fun x =>
    if x.2 then some x.1 else none

/-- The calls of `IsLimited` that the requests lead to. -/
def ruledCalls (requests : List HttpRequest) : List RuledCall :=
  (requests.filter fun request => Asks tests ignoredPaths rules request).map
    (HttpRequest.ruled tests rules)

end

section

variable {tests : PathTests} {ignoredPaths : List String} {rules : List RateLimitRule}
  {requests : List HttpRequest} {request : HttpRequest}

theorem invokeAsync_of_asks (h : Asks tests ignoredPaths rules request) (db : Redis) :
    invokeAsync tests ignoredPaths rules db request =
      ((isLimited (getApplicableRules tests rules request.path) request.call.ip request.call.time
        db).1,
      !(isLimited (getApplicableRules tests rules request.path) request.call.ip request.call.time
        db).2) := by
  obtain ⟨hignored, hrules⟩ := h
  unfold invokeAsync
  rw [hignored, if_neg (by decide)]
  exact if_pos (List.length_pos_iff.mpr hrules)

theorem invokeAsync_of_not (h : ¬ Asks tests ignoredPaths rules request) (db : Redis) :
    invokeAsync tests ignoredPaths rules db request = (db, true) := by
  unfold invokeAsync
  split_ifs with hignored
  · rfl
  · have hnone : getApplicableRules tests rules request.path = [] := by
      by_contra hrules
      exact h ⟨by simpa using hignored, hrules⟩
    simp [hnone]

/-- The middleware does to Redis what its calls of the limiter do, and passes on what they
    admit. -/
theorem sharedHistory_ruledCalls (requests : List HttpRequest) :
    final (invokeAsync tests ignoredPaths rules) requests (fun _ => none) =
        (sharedHistory (ruledCalls tests ignoredPaths rules requests)).db ∧
      ruledCalls tests ignoredPaths rules (passedOn tests ignoredPaths rules requests) =
        (sharedHistory (ruledCalls tests ignoredPaths rules requests)).admitted := by
  induction requests using List.reverseRecOn with
  | nil => exact ⟨rfl, rfl⟩
  | append_singleton requests request ih =>
    obtain ⟨hdb, hadmitted⟩ := ih
    have hpassed : passedOn tests ignoredPaths rules (requests ++ [request]) =
        passedOn tests ignoredPaths rules requests ++
          if (invokeAsync tests ignoredPaths rules
            (sharedHistory (ruledCalls tests ignoredPaths rules requests)).db request).2
          then [request] else [] := by
      rw [← hdb, passedOn, trace_append, List.filterMap_append]
      congr 1
      simp only [trace, List.filterMap_cons, List.filterMap_nil]
      split_ifs <;> simp_all
    have hfinal : final (invokeAsync tests ignoredPaths rules) (requests ++ [request])
          (fun _ => none) =
        (invokeAsync tests ignoredPaths rules
          (sharedHistory (ruledCalls tests ignoredPaths rules requests)).db request).1 := by
      rw [final_append, hdb]
      rfl
    have happend : ∀ requests requests' : List HttpRequest,
        ruledCalls tests ignoredPaths rules (requests ++ requests') =
          ruledCalls tests ignoredPaths rules requests ++
            ruledCalls tests ignoredPaths rules requests' := by
      intro requests requests'
      simp [ruledCalls, List.filter_append]
    rw [hpassed, hfinal, happend, happend, hadmitted]
    by_cases hasks : Asks tests ignoredPaths rules request
    · have hone : ruledCalls tests ignoredPaths rules [request] = [request.ruled tests rules] := by
        simp [ruledCalls, hasks]
      rw [invokeAsync_of_asks hasks, hone, sharedHistory_snoc, Shared.step_eq]
      refine ⟨rfl, ?_⟩
      show _ = if (isLimited (getApplicableRules tests rules request.path) request.call.ip
        request.call.time _).2 then _ else _
      cases (isLimited (getApplicableRules tests rules request.path) request.call.ip
        request.call.time
          (sharedHistory (ruledCalls tests ignoredPaths rules requests)).db).2 with
      | true => simp [ruledCalls]
      | false => simp [hone]
    · have hnone : ruledCalls tests ignoredPaths rules [request] = [] := by
        simp [ruledCalls, hasks]
      rw [invokeAsync_of_not hasks, hnone]
      simp [hnone]

/-- A request that matches a rule is checked against one that is as tight. -/
theorem obeys_ruled (hrule : rule ∈ rules) (hmatch : rule.matchPath tests request.path = true) :
    (request.ruled tests rules).Obeys rule := by
  have hmem : rule ∈ matchingRules tests rules request.path := List.mem_filter.mpr ⟨hrule, hmatch⟩
  obtain ⟨rule', hrule', hpath, hwindow, hmax⟩ :=
    (sameLimit_getApplicableRules tests rules request.path).tightest rule hmem
  exact ⟨rule', hrule', hpath, hwindow, hmax⟩

/-- **The limits of the HTTP frontends.** For every rule of the configuration, every address and
    every window: of the requests that match the rule and are not ignored, no more are passed on
    than the rule allows, whichever paths are mixed and whatever other rules they match. -/
theorem http_quota (hclock : Clock digits (requests.map HttpRequest.call)) (hrule : rule ∈ rules)
    (hwindow : 1 ≤ rule.windowSeconds) (hmax : 0 ≤ rule.maxRequests) (ip : IPAddress) (t : ℤ) :
    (((passedOn tests ignoredPaths rules requests).filter fun request =>
      rule.matchPath tests request.path ∧ isIgnored tests ignoredPaths request.path = false ∧
        request.call.ip = ip ∧ t - rule.windowSeconds < request.call.time.seconds ∧
        request.call.time.seconds ≤ t).length : ℤ) ≤ rule.maxRequests := by
  have hcalls : Clock digits ((ruledCalls tests ignoredPaths rules requests).map RuledCall.call) := by
    have hsublist : ((ruledCalls tests ignoredPaths rules requests).map RuledCall.call).Sublist
        (requests.map HttpRequest.call) := by
      rw [ruledCalls, List.map_map]
      exact List.filter_sublist.map _
    refine ⟨hclock.increasing.sublist (hsublist.map _), ?_⟩
    intro call hcall
    exact hclock.digits call (hsublist.subset hcall)
  have hbound := (quota_kept hcalls).1 rule hwindow hmax ip t
  rw [← (sharedHistory_ruledCalls requests).2] at hbound
  refine le_trans (Int.ofNat_le.mpr ?_) hbound
  simp only [inWindow, obeying, ruledCalls, List.filter_map, List.length_map, List.filter_filter]
  rw [← List.countP_eq_length_filter, ← List.countP_eq_length_filter]
  apply List.countP_mono_left
  intro request _ h
  obtain ⟨hmatch, hignored, hip, htime⟩ := of_decide_eq_true h
  have hobeys := obeys_ruled hrule hmatch
  have hasks : Asks tests ignoredPaths rules request := by
    obtain ⟨rule', hrule', -⟩ := hobeys
    exact ⟨hignored, List.ne_nil_of_mem hrule'⟩
  simp only [Function.comp_apply, Bool.and_eq_true, decide_eq_true_eq]
  exact ⟨⟨hip, htime⟩, hobeys, hasks⟩

/-- All paths share 5 requests in a minute, "/urls" has one, and "/health" is free. -/
theorem http_quota_twoPaths :
    let tests : PathTests := ⟨fun path text => path = text, fun path text => path = text ∨ text = "^/"⟩
    let rules : List RateLimitRule := [⟨"/urls", "", 60, 1⟩, ⟨"", "^/", 60, 5⟩]
    (((passedOn tests ["/health"] rules [⟨"/urls", firstCall⟩, ⟨"/health", secondCall⟩]).filter
      fun request => RateLimitRule.matchPath tests ⟨"/urls", "", 60, 1⟩ request.path ∧
        isIgnored tests ["/health"] request.path = false ∧ request.call.ip = localhost ∧
        (109 : ℤ) - 60 < request.call.time.seconds ∧
        (request.call.time.seconds : ℤ) ≤ 109).length : ℤ) ≤ 1 := by
  intro tests rules
  have hrule : (⟨"/urls", "", 60, 1⟩ : RateLimitRule) ∈ rules := List.mem_cons_self
  exact http_quota clock_exampleCalls hrule (by decide) (by decide) localhost 109

end

end Shortener.Limits
