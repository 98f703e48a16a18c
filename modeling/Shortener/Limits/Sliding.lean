import Shortener.Common.SlidingWindow
import Shortener.Limits.RateLimiter

/-!
# The rate limiter keeps sliding windows

All calls of `IsLimited` on one Redis, one after the other, against the sliding windows of
`Common.SlidingWindow`.

* `RuleInv`: the sorted set of a rule and an address holds the admitted calls of its window.
* `admitted_eq`: the script admits what the sliding windows admit.
* `limiter_promise`: the bound on every window, when a call is refused, and that neither a refused
  call nor an expiry touches a window.
-/

namespace Shortener.Limits

open Shortener.Common Shortener.DotNet

/-- A call of `IsLimited`. -/
structure Call where
  ip : IPAddress
  time : Time
  deriving DecidableEq

/-- Redis, and what has been admitted. -/
structure State where
  db : Redis
  /-- the calls that were not limited -/
  admitted : List Call

/-- Redis is empty. -/
def State.init : State := ⟨fun _ => none, []⟩

/-- One call. -/
def step (rules : List RateLimitRule) (s : State) (call : Call) : State :=
  let (db, limited) := isLimited rules call.ip call.time s.db
  ⟨db, if limited then s.admitted else s.admitted ++ [call]⟩

/-- The state after a history of calls. -/
def history (rules : List RateLimitRule) (calls : List Call) : State := calls.foldl (step rules) .init

/-- The admitted calls of an address in the window of `windowSeconds` that ends with second `t`. -/
def inWindow (ip : IPAddress) (windowSeconds t : ℤ) (calls : List Call) : List Call :=
  calls.filter fun call => call.ip = ip ∧ t - windowSeconds < call.time.seconds ∧ call.time.seconds ≤ t

/-- A call as an event of the sliding windows. -/
def Call.event (call : Call) : IPAddress × ℤ := (call.ip, call.time.seconds)

/-- The rule as one of a sliding window. -/
def RateLimitRule.sliding (rule : RateLimitRule) : SlidingWindow.Rule ℤ :=
  ⟨rule.windowSeconds, rule.maxRequests⟩

/-! ## The invariant of a sorted set -/

variable {rules : List RateLimitRule} {rule : RateLimitRule} {ip : IPAddress} {now : ℤ}
  {past admitted calls : List Call} {call : Call} {value : Value}

/-- What `ZADD` adds for a call. -/
def Call.entry (call : Call) : Entry := ⟨call.time.seconds, call.time.member⟩

/-- The admitted calls of an address, as entries. -/
def entriesOf (ip : IPAddress) (admitted : List Call) : List Entry :=
  (admitted.filter fun call => call.ip = ip).map Call.entry

/-- The sorted set of a rule and an address after the calls `past`, none of them later than
    second `now`. -/
structure RuleInv (windowSeconds : ℤ) (ip : IPAddress) (now : ℤ) (past admitted : List Call)
    (value : Value) : Prop where
  /-- It holds the admitted calls of the window. -/
  entries : ∀ bound, now - windowSeconds ≤ bound →
    above bound value.entries = above bound (entriesOf ip admitted)
  past : ∀ entry ∈ value.entries, ∃ call ∈ past, entry = call.entry
  covered : Covered windowSeconds value

theorem RuleInv.mono {windowSeconds now' : ℤ} (h : RuleInv windowSeconds ip now past admitted value)
    (hnow : now ≤ now') : RuleInv windowSeconds ip now' past admitted value :=
  ⟨fun bound hbound => h.entries bound (by omega), h.past, h.covered⟩

theorem RuleInv.past_append {windowSeconds : ℤ} (h : RuleInv windowSeconds ip now past admitted value)
    (calls : List Call) : RuleInv windowSeconds ip now (past ++ calls) admitted value := by
  refine ⟨h.entries, ?_, h.covered⟩
  intro entry hentry
  obtain ⟨call, hcall, heq⟩ := h.past entry hentry
  exact ⟨call, List.mem_append_left _ hcall, heq⟩

/-- Expiry keeps the invariant. -/
theorem RuleInv.live {windowSeconds : ℤ} {time : Time}
    (h : RuleInv windowSeconds ip time.seconds past admitted value) :
    RuleInv windowSeconds ip time.seconds past admitted (live time value) := by
  refine ⟨?_, fun entry hentry => h.past entry ((entries_live_sublist _ _).subset hentry), h.covered.live⟩
  intro bound hbound
  rw [above_live h.covered hbound]
  exact h.entries bound hbound

theorem RuleInv.score_nonneg {windowSeconds : ℤ}
    (h : RuleInv windowSeconds ip now past admitted value) :
    ∀ entry ∈ value.entries, 0 ≤ entry.score := by
  intro entry hentry
  obtain ⟨call, -, rfl⟩ := h.past entry hentry
  exact Int.natCast_nonneg _

/-- Trimming keeps the invariant. -/
theorem RuleInv.trim {windowSeconds : ℤ} (h : RuleInv windowSeconds ip now past admitted value) :
    RuleInv windowSeconds ip now past admitted (zremrangebyscore 0 (now - windowSeconds) value) := by
  refine ⟨?_, fun entry hentry => h.past entry ((entries_zremrangebyscore_sublist _ _ _).subset hentry),
    h.covered.zremrangebyscore⟩
  intro bound hbound
  rw [entries_zremrangebyscore h.score_nonneg, above_above hbound]
  exact h.entries bound hbound

/-- After trimming, the set has the admitted calls of the window and no others. -/
theorem RuleInv.zcard_trim {windowSeconds : ℤ} (h : RuleInv windowSeconds ip now past admitted value)
    (hadmitted : ∀ call ∈ admitted, (call.time.seconds : ℤ) ≤ now) :
    zcard (zremrangebyscore 0 (now - windowSeconds) value) =
      (inWindow ip windowSeconds now admitted).length := by
  have hwindow : above (now - windowSeconds) (entriesOf ip admitted) =
      (inWindow ip windowSeconds now admitted).map Call.entry := by
    rw [above, entriesOf, List.filter_map, List.filter_filter]
    congr 1
    apply List.filter_congr
    intro call hcall
    have := hadmitted call hcall
    show (decide (now - windowSeconds < call.time.seconds) && decide (call.ip = ip)) = decide _
    rw [← Bool.decide_and, decide_eq_decide]
    tauto
  rw [zcard_eq, entries_zremrangebyscore h.score_nonneg, h.entries _ le_rfl, hwindow, List.length_map]

/-- `ZADD` and `EXPIRE` of an admitted call keep the invariant. -/
theorem RuleInv.add {windowSeconds : ℤ} (hwindow : 0 < windowSeconds)
    (h : RuleInv windowSeconds call.ip call.time.seconds past admitted value)
    (hpast : ∀ call' ∈ past, call'.time.seconds ≤ call.time.seconds)
    (hmember : ∀ call' ∈ past, call'.time.member ≠ call.time.member) :
    RuleInv windowSeconds call.ip call.time.seconds (past ++ [call]) (admitted ++ [call])
      (expire call.time windowSeconds (zadd call.time.seconds call.time.member value)) := by
  have hnew : ∀ entry ∈ value.entries, entry.member ≠ call.time.member := by
    intro entry hentry
    obtain ⟨call', hcall', rfl⟩ := h.past entry hentry
    exact hmember call' hcall'
  have hentries := entries_zadd call.time.seconds hnew
  have hpast' : ∀ entry ∈ value.entries ++ [call.entry],
      ∃ call' ∈ past ++ [call], entry = call'.entry := by
    intro entry hentry
    rcases List.mem_append.mp hentry with hentry | hentry
    · obtain ⟨call', hcall', heq⟩ := h.past entry hentry
      exact ⟨call', List.mem_append_left _ hcall', heq⟩
    · exact ⟨call, by simp, List.mem_singleton.mp hentry⟩
  refine ⟨?_, ?_, ?_⟩
  · intro bound hbound
    rw [entries_expire hwindow, hentries, above_append, h.entries bound hbound, entriesOf,
      entriesOf, List.filter_append, List.map_append, above_append]
    simp [Call.entry]
  · rw [entries_expire hwindow, hentries]
    exact hpast'
  · apply covered_expire hwindow
    rw [hentries]
    intro entry hentry
    obtain ⟨call', hcall', rfl⟩ := hpast' entry hentry
    rcases List.mem_append.mp hcall' with hcall' | hcall'
    · exact Int.ofNat_le.mpr (hpast call' hcall')
    · rw [List.mem_singleton.mp hcall']
      exact le_rfl

/-- A call of another address. -/
theorem RuleInv.other {windowSeconds : ℤ} (h : RuleInv windowSeconds ip now past admitted value)
    (hip : call.ip ≠ ip) : RuleInv windowSeconds ip now past (admitted ++ [call]) value := by
  refine ⟨?_, h.past, h.covered⟩
  intro bound hbound
  rw [h.entries bound hbound, entriesOf, entriesOf, List.filter_append]
  simp [hip]

/-! ## Every call -/

/-- The admitted calls and all sorted sets of the rules after the calls `past`. -/
structure Inv (rules : List RateLimitRule) (past : List Call) (now : ℤ) (s : State) : Prop where
  admitted : ∀ call ∈ s.admitted, call ∈ past
  rules : ∀ rule ∈ rules, ∀ ip,
    RuleInv rule.windowSeconds ip now past s.admitted (s.db (redisKey rule ip))

/-- What the calls are assumed to be: each later than the one before, with seconds of one
    length. -/
structure Clock (digits : ℕ) (calls : List Call) : Prop where
  increasing : (calls.map fun call => call.time.micros).Pairwise (· < ·)
  digits : ∀ call ∈ calls, (toString call.time.seconds).length = digits

/-- What the rules are assumed to be. -/
structure Rules (rules : List RateLimitRule) : Prop where
  keys : ∀ ip, (rules.map fun rule => redisKey rule ip).Nodup
  window : ∀ rule ∈ rules, 1 ≤ rule.windowSeconds
  maxRequests : ∀ rule ∈ rules, 0 ≤ rule.maxRequests

theorem Time.seconds_le {t t' : Time} (h : t.micros < t'.micros) : t.seconds ≤ t'.seconds := by
  have := t'.lt
  unfold Time.micros at h
  omega

variable {digits : ℕ} {s : State}

theorem Clock.of_append {later : List Call} (h : Clock digits (past ++ later)) : Clock digits past := by
  refine ⟨?_, fun call hcall => h.digits call (List.mem_append_left _ hcall)⟩
  have hincreasing := h.increasing
  rw [List.map_append, List.pairwise_append] at hincreasing
  exact hincreasing.1

theorem Clock.last_lt (h : Clock digits (past ++ [call])) :
    ∀ call' ∈ past, call'.time.micros < call.time.micros := by
  intro call' hcall'
  have hincreasing := h.increasing
  rw [List.map_append, List.pairwise_append] at hincreasing
  exact hincreasing.2.2 _ (List.mem_map_of_mem hcall') _ (by simp)

theorem Clock.seconds_le (h : Clock digits (past ++ [call])) :
    ∀ call' ∈ past, call'.time.seconds ≤ call.time.seconds :=
  fun call' hcall' => Time.seconds_le (h.last_lt call' hcall')

/-- The events of the calls are in the order of their seconds. -/
theorem Clock.events (h : Clock digits calls) :
    ((calls.map Call.event).map Prod.snd).Pairwise (· ≤ ·) := by
  have hincreasing := h.increasing
  rw [List.pairwise_map] at hincreasing
  rw [List.map_map, List.pairwise_map]
  exact hincreasing.imp fun hlt => Int.ofNat_le.mpr (Time.seconds_le hlt)

theorem Clock.member_ne (h : Clock digits (past ++ [call])) :
    ∀ call' ∈ past, call'.time.member ≠ call.time.member := by
  intro call' hcall' heq
  have hlength : (toString call'.time.seconds).length = (toString call.time.seconds).length := by
    rw [h.digits call' (List.mem_append_left _ hcall'), h.digits call (by simp)]
  have htime := member_inj hlength heq
  have hlt := h.last_lt call' hcall'
  rw [htime] at hlt
  exact lt_irrefl _ hlt

/-- The key of another address is none of the keys of the call. -/
theorem redisKey_not_mem {ip' : IPAddress} (h : ip' ≠ ip) :
    redisKey rule ip' ∉ rules.map fun rule => redisKey rule ip := by
  intro hmem
  obtain ⟨rule', -, heq⟩ := List.mem_map.mp hmem
  exact h (redisKey_inj heq).1.symm

/-- One call keeps the invariant of a rule with a window. -/
theorem RuleInv.step (hrule : rule ∈ rules) (hwindow : 1 ≤ rule.windowSeconds)
    (hclock : Clock digits (past ++ [call]))
    (hi : RuleInv rule.windowSeconds ip call.time.seconds past s.admitted
      (s.db (redisKey rule ip))) :
    RuleInv rule.windowSeconds ip call.time.seconds (past ++ [call])
      (Limits.step rules s call).admitted ((Limits.step rules s call).db (redisKey rule ip)) := by
  have hspec := isLimited_spec rules call.ip call.time s.db
  have hstep : Limits.step rules s call = ⟨(isLimited rules call.ip call.time s.db).1,
      if (isLimited rules call.ip call.time s.db).2 then s.admitted else s.admitted ++ [call]⟩ := rfl
  rw [hstep]
  generalize isLimited rules call.ip call.time s.db = result at hspec ⊢
  obtain ⟨db, limited⟩ := result
  dsimp only at hspec ⊢
  have hlive := hi.live
  cases limited with
  | true =>
    show RuleInv rule.windowSeconds ip call.time.seconds _ s.admitted (db (redisKey rule ip))
    by_cases hip : ip = call.ip
    · subst hip
      rcases hspec.refused rfl rule hrule with h | h
      · rw [h]
        exact hlive.past_append [call]
      · rw [h]
        exact hlive.trim.past_append [call]
    · rw [hspec.frame _ (redisKey_not_mem hip)]
      exact hlive.past_append [call]
  | false =>
    show RuleInv rule.windowSeconds ip call.time.seconds _ (s.admitted ++ [call])
      (db (redisKey rule ip))
    by_cases hip : ip = call.ip
    · subst hip
      rw [hspec.admitted rfl rule hrule]
      exact hlive.trim.add hwindow hclock.seconds_le hclock.member_ne
    · rw [hspec.frame _ (redisKey_not_mem hip)]
      exact (hlive.past_append [call]).other (Ne.symm hip)

theorem history_snoc (rules : List RateLimitRule) (calls : List Call) (call : Call) :
    history rules (calls ++ [call]) = step rules (history rules calls) call := by
  simp [history, List.foldl_append]

theorem ruleInv_nil (windowSeconds : ℤ) : RuleInv windowSeconds ip now [] [] none := by
  refine ⟨fun _ _ => rfl, fun entry hentry => absurd hentry List.not_mem_nil, ?_⟩
  intro set hset
  cases hset

/-- The invariant of a rule with a window, at every second from the last call on. -/
theorem ruleInv_history (hrule : rule ∈ rules) (hwindow : 1 ≤ rule.windowSeconds)
    (hclock : Clock digits calls) (hnow : ∀ call ∈ calls, (call.time.seconds : ℤ) ≤ now) :
    RuleInv rule.windowSeconds ip now calls (history rules calls).admitted
      ((history rules calls).db (redisKey rule ip)) := by
  induction calls using List.reverseRecOn generalizing now with
  | nil => exact ruleInv_nil _
  | append_singleton calls call ih =>
    have hseconds : ∀ call' ∈ calls, (call'.time.seconds : ℤ) ≤ call.time.seconds :=
      fun call' hcall' => Int.ofNat_le.mpr (hclock.seconds_le call' hcall')
    rw [history_snoc]
    exact ((ih hclock.of_append hseconds).step hrule hwindow hclock).mono (hnow call (by simp))

/-- Only calls that were made are admitted. -/
theorem mem_admitted_history (rules : List RateLimitRule) (calls : List Call) :
    ∀ call ∈ (history rules calls).admitted, call ∈ calls := by
  induction calls using List.reverseRecOn with
  | nil => exact fun call hcall => absurd hcall List.not_mem_nil
  | append_singleton calls call ih =>
    have hadmitted : (history rules (calls ++ [call])).admitted =
        if (isLimited rules call.ip call.time (history rules calls).db).2
        then (history rules calls).admitted else (history rules calls).admitted ++ [call] := by
      rw [history_snoc]
      rfl
    intro call' hcall'
    rw [hadmitted] at hcall'
    split_ifs at hcall'
    · exact List.mem_append_left _ (ih call' hcall')
    · rcases List.mem_append.mp hcall' with hcall' | hcall'
      · exact List.mem_append_left _ (ih call' hcall')
      · exact List.mem_append_right _ hcall'

/-- The invariant of all rules. -/
theorem inv_history (hrules : Rules rules) (hclock : Clock digits calls)
    (hnow : ∀ call ∈ calls, (call.time.seconds : ℤ) ≤ now) :
    Inv rules calls now (history rules calls) :=
  ⟨mem_admitted_history rules calls, fun rule hrule _ =>
    ruleInv_history hrule (hrules.window rule hrule) hclock hnow⟩

/-! ## The decisions -/

/-- A call is refused exactly when a window that ends with it is full. -/
theorem isLimited_iff (hi : Inv rules past call.time.seconds s)
    (hpast : ∀ call' ∈ past, call'.time.seconds ≤ call.time.seconds) :
    (isLimited rules call.ip call.time s.db).2 = true ↔ ∃ rule ∈ rules,
      rule.maxRequests ≤ (inWindow call.ip rule.windowSeconds call.time.seconds s.admitted).length := by
  have hadmitted : ∀ call' ∈ s.admitted, (call'.time.seconds : ℤ) ≤ call.time.seconds :=
    fun call' hcall' => Int.ofNat_le.mpr (hpast call' (hi.admitted call' hcall'))
  have hcount : ∀ rule ∈ rules, zcard (trimmed call.time s.db rule call.ip) =
      (inWindow call.ip rule.windowSeconds call.time.seconds s.admitted).length :=
    fun rule hrule => (hi.rules rule hrule call.ip).live.zcard_trim hadmitted
  rw [(isLimited_spec rules call.ip call.time s.db).limited_iff]
  constructor
  · intro h
    obtain ⟨rule, hrule, hmax⟩ := h
    exact ⟨rule, hrule, hcount rule hrule ▸ hmax⟩
  · intro h
    obtain ⟨rule, hrule, hmax⟩ := h
    exact ⟨rule, hrule, (hcount rule hrule).symm ▸ hmax⟩

/-- A window of the calls is a window of their events. -/
theorem length_inWindow_event (ip : IPAddress) (windowSeconds t : ℤ) (calls : List Call) :
    (SlidingWindow.inWindow ip windowSeconds t (calls.map Call.event)).length =
      (inWindow ip windowSeconds t calls).length := by
  rw [SlidingWindow.inWindow, List.filter_map, List.length_map]
  rfl

/-- The limiter decides as the sliding windows do. -/
theorem admitted_eq (hrules : Rules rules) (hclock : Clock digits calls) :
    (history rules calls).admitted.map Call.event =
      SlidingWindow.admitted (rules.map RateLimitRule.sliding) (calls.map Call.event) := by
  induction calls using List.reverseRecOn with
  | nil => rfl
  | append_singleton calls call ih =>
    have hi := inv_history hrules hclock.of_append fun call' hcall' =>
      Int.ofNat_le.mpr (hclock.seconds_le call' hcall')
    have hiff := isLimited_iff hi hclock.seconds_le
    have hadmits : SlidingWindow.admits (rules.map RateLimitRule.sliding)
        ((history rules calls).admitted.map Call.event) call.event = true ↔
        ¬ (isLimited rules call.ip call.time (history rules calls).db).2 = true := by
      rw [SlidingWindow.admits_iff, hiff]
      push Not
      simp only [List.mem_map, forall_exists_index, and_imp, forall_apply_eq_imp_iff₂,
        RateLimitRule.sliding, Call.event]
      exact forall₂_congr fun rule _ => by rw [← length_inWindow_event]
    rw [history_snoc, List.map_append, List.map_singleton, SlidingWindow.admitted_snoc,
      ← ih hclock.of_append, SlidingWindow.offer]
    show List.map Call.event (if (isLimited rules call.ip call.time (history rules calls).db).2
      then _ else _) = _
    by_cases hlimited : (isLimited rules call.ip call.time (history rules calls).db).2 = true
    · rw [if_pos hlimited, if_neg (by rw [hadmits]; exact not_not.mpr hlimited)]
    · rw [if_neg hlimited, if_pos (hadmits.mpr hlimited), List.map_append, List.map_singleton]

/-- A refused call adds nothing. -/
theorem entries_of_refused {time : Time} {db : Redis}
    (h : (isLimited rules ip time db).2 = true) (key : String) :
    ∀ entry ∈ ((isLimited rules ip time db).1 key).entries, entry ∈ (db key).entries := by
  have hspec := isLimited_spec rules ip time db
  intro entry hentry
  by_cases hkey : key ∈ rules.map fun rule => redisKey rule ip
  · obtain ⟨rule, hrule, rfl⟩ := List.mem_map.mp hkey
    rcases hspec.refused h rule hrule with heq | heq
    · rw [heq] at hentry
      exact (entries_live_sublist _ _).subset hentry
    · rw [heq] at hentry
      exact ((entries_zremrangebyscore_sublist _ _ _).trans (entries_live_sublist _ _)).subset hentry
  · rw [hspec.frame key hkey] at hentry
    exact (entries_live_sublist _ _).subset hentry

/-- **The promise of the limiter.** -/
theorem limiter_promise (hrules : Rules rules) (hclock : Clock digits calls) :
    (∀ rule ∈ rules, ∀ ip t,
      (inWindow ip rule.windowSeconds t (history rules calls).admitted).length ≤ rule.maxRequests) ∧
    (∀ earlier call later, calls = earlier ++ call :: later →
      ((isLimited rules call.ip call.time (history rules earlier).db).2 = true ↔
        ∃ rule ∈ rules, rule.maxRequests ≤ (inWindow call.ip rule.windowSeconds call.time.seconds
          (history rules earlier).admitted).length) ∧
      ((isLimited rules call.ip call.time (history rules earlier).db).2 = true → ∀ key,
        ∀ entry ∈ ((isLimited rules call.ip call.time (history rules earlier).db).1 key).entries,
          entry ∈ ((history rules earlier).db key).entries)) ∧
    ∀ rule ∈ rules, ∀ ip (now : Time),
      ∀ entry ∈ ((history rules calls).db (redisKey rule ip)).entries,
        entry ∉ (live now ((history rules calls).db (redisKey rule ip))).entries →
          entry.score ≤ now.seconds - rule.windowSeconds := by
  refine ⟨?_, ?_, ?_⟩
  · intro rule hrule ip t
    rw [← length_inWindow_event, admitted_eq hrules hclock]
    have hsliding : rule.sliding ∈ rules.map RateLimitRule.sliding := List.mem_map_of_mem hrule
    exact SlidingWindow.window_bound hclock.events hsliding (hrules.maxRequests rule hrule) ip t
  · intro earlier call later hcalls
    rw [hcalls, List.append_cons] at hclock
    have hearlier := hclock.of_append
    have hi := inv_history hrules hearlier.of_append fun call' hcall' =>
      Int.ofNat_le.mpr (hearlier.seconds_le call' hcall')
    exact ⟨isLimited_iff hi hearlier.seconds_le, entries_of_refused⟩
  · intro rule hrule ip now entry hentry hgone
    have hnow : ∀ call ∈ calls,
        (call.time.seconds : ℤ) ≤ (calls.map fun call => call.time.seconds).sum :=
      fun call hcall => Int.ofNat_le.mpr (List.le_sum_of_mem (List.mem_map_of_mem hcall))
    have hcovered := ((inv_history hrules hclock hnow).rules rule hrule ip).covered
    exact score_le_of_not_mem_live hcovered hentry hgone

/-! ## Two rules and two calls -/

/-- One call in ten seconds, two in a minute. -/
def exampleRules : List RateLimitRule := [⟨"normal", "", 10, 1⟩, ⟨"normal", "", 60, 2⟩]

/-- The address of the calls below. -/
def localhost : IPAddress := ⟨"127.0.0.1", by decide⟩

/-- A call at second 100. -/
def firstCall : Call := ⟨localhost, 100, 7, by decide⟩

/-- Nine seconds later. -/
def secondCall : Call := ⟨localhost, 109, 0, by decide⟩

theorem rules_exampleRules : Rules exampleRules where
  keys := by
    intro ip
    have hne : redisKey ⟨"normal", "", 10, 1⟩ ip ≠ redisKey ⟨"normal", "", 60, 2⟩ ip := by
      intro heq
      exact absurd (redisKey_inj heq).2.2 (by decide)
    simpa [exampleRules] using hne
  window := by decide
  maxRequests := by decide

theorem clock_exampleCalls : Clock 3 [firstCall, secondCall] where
  increasing := by decide
  digits := by decide

/-- The second call is refused. -/
theorem limiter_promise_secondCall :
    (isLimited exampleRules localhost secondCall.time (history exampleRules [firstCall]).db).2 = true ∧
      (inWindow localhost 10 109 (history exampleRules [firstCall, secondCall]).admitted).length ≤ 1 := by
  obtain ⟨hbound, hcalls, -⟩ := limiter_promise rules_exampleRules clock_exampleCalls
  have hfirst := (hcalls [] firstCall [secondCall] rfl).1
  have hsecond := (hcalls [firstCall] secondCall [] rfl).1
  have hadmitted : (history exampleRules [firstCall]).admitted = [firstCall] := by
    have hnot : ¬ (isLimited exampleRules firstCall.ip firstCall.time
        (history exampleRules []).db).2 = true := by
      rw [hfirst]
      decide
    show (if (isLimited exampleRules firstCall.ip firstCall.time (history exampleRules []).db).2
      then [] else [firstCall]) = [firstCall]
    rw [if_neg hnot]
  rw [hadmitted] at hsecond
  refine ⟨hsecond.mpr (by decide), ?_⟩
  exact Int.ofNat_le.mp (hbound ⟨"normal", "", 10, 1⟩ (by decide) localhost 109)

end Shortener.Limits
