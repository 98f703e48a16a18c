import Shortener.Common.Noninterference
import Shortener.Limits.Recorded
import Shortener.Limits.Sliding

/-!
# The quotas of normal and restricted fields

`UseRateLimiter` of `GraphQLRateLimiter`
(`Shortener.GraphQLFrontend/Middleware/GraphQLRateLimiter.cs`, lines 12–53). A restricted field is
checked against the rules whose `Path` is not "normal"; a normal field is checked against all
rules, those for restricted fields among them, and an admitted request is charged to every rule
that it is checked against.

* `independent_of_separate`: what keeps the two quotas apart.
* `separate_of_independent`: otherwise restricted requests fill a rule that normal fields are
  checked against.
* `quotas_independent_iff`: both.
-/

namespace Shortener.Limits

open Shortener.Common Shortener.DotNet

/-- `RateLimitType`. -/
inductive RateLimitType
  | normal
  | restricted
  deriving DecidableEq, Repr

/-- The configuration that the middleware reads. -/
structure Configuration where
  /-- `RATE_LIMITER_ENABLED` -/
  rateLimiterEnabled : Bool
  /-- `RedisRateLimits` -/
  redisRateLimits : List RateLimitRule

/-- `string.Equals(path, "normal", StringComparison.OrdinalIgnoreCase)`. -/
def isNormal (path : String) : Bool := path.toLower = "normal"

/-- `UseRateLimiter`: the rules of the middleware, or none. -/
def useRateLimiter (configuration : Configuration) (type : RateLimitType) :
    Option (List RateLimitRule) :=
  if configuration.rateLimiterEnabled then
    match type with
    | .normal => some configuration.redisRateLimits
    | .restricted => some (configuration.redisRateLimits.filter fun rule => ¬ isNormal rule.path)
  else none

/-- A request to a field. -/
structure FieldRequest where
  type : RateLimitType
  time : Time
  deriving DecidableEq

/-- `InvokeAsync`, and whether it throws. -/
def invoke (configuration : Configuration) (ip : IPAddress) (db : Redis) (request : FieldRequest) :
    Redis × Bool :=
  match useRateLimiter configuration request.type with
  | none => (db, false)
  | some rules => isLimited rules ip request.time db

/-- The requests of one address, with their answers. -/
def answers (configuration : Configuration) (ip : IPAddress) (requests : List FieldRequest) :
    List (FieldRequest × Bool) :=
  trace (invoke configuration ip) requests fun _ => none

/-- The script never sees an earlier time than before. -/
def InOrder (requests : List FieldRequest) : Prop :=
  (requests.map FieldRequest.time).Pairwise fun t t' => t.micros ≤ t'.micros

/-- The field is of this type. -/
def FieldRequest.isOf (type : RateLimitType) (request : FieldRequest) : Bool := request.type = type

/-- The answers to the requests of one type depend on these requests only. -/
def Independent (configuration : Configuration) (ip : IPAddress) (type : RateLimitType) : Prop :=
  ∀ requests requests', InOrder requests → InOrder requests' →
    requests.filter (FieldRequest.isOf type) = requests'.filter (FieldRequest.isOf type) →
      (answers configuration ip requests).filter (fun x => x.1.isOf type) =
        (answers configuration ip requests').filter fun x => x.1.isOf type

/-- A request of every microsecond of its window reaches the limit. -/
def RateLimitRule.Fillable (rule : RateLimitRule) : Prop :=
  1 ≤ rule.windowSeconds ∧ rule.maxRequests ≤ 1000000 * rule.windowSeconds

instance (rule : RateLimitRule) : Decidable rule.Fillable := inferInstanceAs (Decidable (_ ∧ _))

/-- The limiter is off, or admits no normal request, or no rule that requests can fill has a key
    that restricted requests are charged to. -/
def Separate (configuration : Configuration) : Prop :=
  configuration.rateLimiterEnabled = false ∨
    (∃ rule ∈ configuration.redisRateLimits, rule.maxRequests ≤ 0) ∨
    ∀ rule ∈ configuration.redisRateLimits, rule.Fillable →
      ∀ rule' ∈ configuration.redisRateLimits, ¬ isNormal rule'.path →
        ¬ (rule.pathKey = rule'.pathKey ∧ rule.windowSeconds = rule'.windowSeconds)

variable {configuration : Configuration} {ip : IPAddress} {type : RateLimitType}
  {rules : List RateLimitRule} {rule : RateLimitRule} {db db' : Redis} {now later : Time}

/-! ## Quotas that are apart -/

/-- `t` is not after `t'`. -/
abbrev NotAfter (t t' : Time) : Prop := t.micros ≤ t'.micros

/-- The requests of the type answer as if there were no others. -/
theorem independent_of_unwinding {R : Time → Redis → Redis → Prop}
    (h : Unwinding (invoke configuration ip) (invoke configuration ip) FieldRequest.time NotAfter
      (FieldRequest.isOf type) R) (hR : ∀ t, R t (fun _ => none) fun _ => none) :
    Independent configuration ip type :=
  fun _ _ hrequests hrequests' hsame => h.filter_trace_eq hrequests hrequests' hR hsame

/-- Requests that always get the same answer depend on none. -/
theorem independent_of_constant {answer : Bool}
    (h : ∀ db (request : FieldRequest), request.type = type →
      (invoke configuration ip db request).2 = answer) :
    Independent configuration ip type := by
  apply independent_of_unwinding (R := fun _ _ _ => True)
  · refine ⟨?_, fun _ _ _ _ _ _ _ => trivial, fun _ _ _ _ _ _ _ => trivial⟩
    intro request db db' hvisible _
    have htype : request.type = type := of_decide_eq_true hvisible
    rw [h db request htype, h db' request htype]
  · exact fun _ => trivial

theorem invoke_normal (henabled : configuration.rateLimiterEnabled = true) (db : Redis)
    {request : FieldRequest} (h : request.type = .normal) :
    invoke configuration ip db request =
      isLimited configuration.redisRateLimits ip request.time db := by
  simp only [invoke, useRateLimiter, henabled, if_true, h]

/-- The rules that restricted fields are checked against. -/
def Configuration.restrictedRules (configuration : Configuration) : List RateLimitRule :=
  configuration.redisRateLimits.filter fun rule => ¬ isNormal rule.path

theorem invoke_restricted (henabled : configuration.rateLimiterEnabled = true) (db : Redis)
    {request : FieldRequest} (h : request.type = .restricted) :
    invoke configuration ip db request =
      isLimited configuration.restrictedRules ip request.time db := by
  simp only [invoke, useRateLimiter, henabled, if_true, h, Configuration.restrictedRules]

theorem mem_restrictedRules : rule ∈ configuration.restrictedRules ↔
    rule ∈ configuration.redisRateLimits ∧ ¬ isNormal rule.path := by
  rw [Configuration.restrictedRules, List.mem_filter, decide_eq_true_eq]

/-- A limit that nothing passes. -/
theorem refused_of_nonpos (hrule : rule ∈ rules) (h : rule.maxRequests ≤ 0) (db : Redis) :
    (isLimited rules ip now db).2 = true := by
  refine isLimited_iff_fresh.mpr ⟨rule, hrule, h.trans ?_⟩
  exact Int.natCast_nonneg _

/-- A limit that nothing reaches. -/
theorem not_full (hdb : AllRecorded now db) (hmax : 0 < rule.maxRequests) (h : ¬ rule.Fillable) :
    ¬ rule.maxRequests ≤ zcard (fresh now rule.windowSeconds (db (redisKey rule ip))) := by
  intro hfull
  have hcount := (hdb (redisKey rule ip)).zcard_fresh_le rule.windowSeconds
  unfold RateLimitRule.Fillable at h
  omega

theorem type_eq_of_not_isOf_restricted {request : FieldRequest}
    (h : request.isOf .restricted = false) : request.type = .normal := by
  cases htype : request.type with
  | normal => rfl
  | restricted => simp [FieldRequest.isOf, htype] at h

theorem type_eq_of_not_isOf_normal {request : FieldRequest} (h : request.isOf .normal = false) :
    request.type = .restricted := by
  cases htype : request.type with
  | normal => simp [FieldRequest.isOf, htype] at h
  | restricted => rfl

/-- Restricted fields answer alike from states that agree; a request to a normal field is refused
    and leaves no trace. -/
theorem unwinding_restricted (henabled : configuration.rateLimiterEnabled = true)
    (hrule : rule ∈ configuration.redisRateLimits) (hmax : rule.maxRequests ≤ 0) :
    Unwinding (invoke configuration ip) (invoke configuration ip) FieldRequest.time NotAfter
      (FieldRequest.isOf .restricted) (AgreeOn Set.univ) := by
  have hanswer : ∀ (request : FieldRequest) (db db' : Redis), request.isOf .restricted = true →
      AgreeOn Set.univ request.time db db' →
        (invoke configuration ip db request).2 = (invoke configuration ip db' request).2 := by
    intro request db db' hvisible hagree
    have htype : request.type = .restricted := of_decide_eq_true hvisible
    rw [invoke_restricted henabled db htype, invoke_restricted henabled db' htype]
    exact (SameLimit.refl _).answer hagree ip
  refine ⟨hanswer, ?_, ?_⟩
  · intro request db db' later hvisible hagree hlater
    have htype : request.type = .restricted := of_decide_eq_true hvisible
    have hsame := hanswer request db db' hvisible hagree
    rw [invoke_restricted henabled db htype, invoke_restricted henabled db' htype] at hsame ⊢
    exact hagree.isLimited (fun _ => Iff.rfl) hsame hlater
  · intro request db db' later hhidden hagree hlater
    rw [invoke_normal henabled db (type_eq_of_not_isOf_restricted hhidden)]
    exact (agreeOn_isLimited hlater (.inl (refused_of_nonpos hrule hmax db))).trans
      (hagree.mono hlater)

/-- The keys that no restricted request is charged to. -/
def normalKeys (configuration : Configuration) (ip : IPAddress) : Set String :=
  {key | key ∉ configuration.restrictedRules.map fun rule => redisKey rule ip}

/-- The states that normal fields see alike. -/
structure SeenAlike (configuration : Configuration) (ip : IPAddress) (now : Time) (db db' : Redis) :
    Prop where
  left : AllRecorded now db
  right : AllRecorded now db'
  agree : AgreeOn (normalKeys configuration ip) now db db'

/-- Normal fields answer alike if no rule of a key that restricted requests are charged to can be
    filled. -/
theorem unwinding_normal (henabled : configuration.rateLimiterEnabled = true)
    (hmax : ∀ rule ∈ configuration.redisRateLimits, 0 < rule.maxRequests)
    (hapart : ∀ rule ∈ configuration.redisRateLimits,
      redisKey rule ip ∈ (configuration.restrictedRules.map fun rule => redisKey rule ip) →
        ¬ rule.Fillable) :
    Unwinding (invoke configuration ip) (invoke configuration ip) FieldRequest.time NotAfter
      (FieldRequest.isOf .normal) (SeenAlike configuration ip) := by
  have hanswer : ∀ (request : FieldRequest) (db db' : Redis), request.isOf .normal = true →
      SeenAlike configuration ip request.time db db' →
        (invoke configuration ip db request).2 = (invoke configuration ip db' request).2 := by
    intro request db db' hvisible halike
    have htype : request.type = .normal := of_decide_eq_true hvisible
    rw [invoke_normal henabled db htype, invoke_normal henabled db' htype, Bool.eq_iff_iff,
      isLimited_iff_fresh, isLimited_iff_fresh]
    apply exists_congr
    intro rule
    apply and_congr_right
    intro hrule
    by_cases hkey : redisKey rule ip ∈ configuration.restrictedRules.map fun rule => redisKey rule ip
    · have hnot := hapart rule hrule hkey
      exact iff_of_false (not_full halike.left (hmax rule hrule) hnot)
        (not_full halike.right (hmax rule hrule) hnot)
    · rw [halike.agree rule ip hkey]
  refine ⟨hanswer, ?_, ?_⟩
  · intro request db db' later hvisible halike hlater
    have htype : request.type = .normal := of_decide_eq_true hvisible
    have hsame := hanswer request db db' hvisible halike
    rw [invoke_normal henabled db htype, invoke_normal henabled db' htype] at hsame ⊢
    exact ⟨(halike.left.isLimited _ ip).mono hlater, (halike.right.isLimited _ ip).mono hlater,
      halike.agree.isLimited (fun _ => Iff.rfl) hsame hlater⟩
  · intro request db db' later hhidden halike hlater
    rw [invoke_restricted henabled db (type_eq_of_not_isOf_normal hhidden)]
    exact ⟨(halike.left.isLimited _ ip).mono hlater, halike.right.mono hlater,
      (agreeOn_isLimited hlater (.inr fun _ hkey => hkey)).trans (halike.agree.mono hlater)⟩

/-- Restricted requests are all admitted if none of their rules can be filled. -/
theorem unwinding_admitted (henabled : configuration.rateLimiterEnabled = true)
    (hmax : ∀ rule ∈ configuration.redisRateLimits, 0 < rule.maxRequests)
    (hapart : ∀ rule ∈ configuration.redisRateLimits,
      redisKey rule ip ∈ (configuration.restrictedRules.map fun rule => redisKey rule ip) →
        ¬ rule.Fillable) :
    Unwinding (invoke configuration ip) (invoke configuration ip) FieldRequest.time NotAfter
      (FieldRequest.isOf .restricted) fun now db db' => AllRecorded now db ∧ AllRecorded now db' := by
  have hadmitted : ∀ (request : FieldRequest) (db : Redis), request.isOf .restricted = true →
      AllRecorded request.time db → (invoke configuration ip db request).2 = false := by
    intro request db hvisible hdb
    rw [invoke_restricted henabled db (of_decide_eq_true hvisible), ← Bool.not_eq_true,
      isLimited_iff_fresh]
    rintro ⟨rule, hrule, hfull⟩
    have hmem := (mem_restrictedRules.mp hrule).1
    exact not_full hdb (hmax rule hmem) (hapart rule hmem (List.mem_map_of_mem hrule)) hfull
  have hkeeps : ∀ (request : FieldRequest) (db : Redis) (later : Time), AllRecorded request.time db →
      NotAfter request.time later → AllRecorded later (invoke configuration ip db request).1 := by
    intro request db later hdb hlater
    cases htype : request.type with
    | normal =>
      rw [invoke_normal henabled db htype]
      exact (hdb.isLimited _ ip).mono hlater
    | restricted =>
      rw [invoke_restricted henabled db htype]
      exact (hdb.isLimited _ ip).mono hlater
  refine ⟨?_, ?_, ?_⟩
  · intro request db db' hvisible hdb
    rw [hadmitted request db hvisible hdb.1, hadmitted request db' hvisible hdb.2]
  · intro request db db' later _ hdb hlater
    exact ⟨hkeeps request db later hdb.1 hlater, hkeeps request db' later hdb.2 hlater⟩
  · intro request db db' later _ hdb hlater
    exact ⟨hkeeps request db later hdb.1 hlater, hdb.2.mono hlater⟩

theorem independent_of_separate (h : Separate configuration) (ip : IPAddress) :
    Independent configuration ip .restricted ∧ Independent configuration ip .normal := by
  cases henabled : configuration.rateLimiterEnabled with
  | false =>
    have hadmitted : ∀ db request, (invoke configuration ip db request).2 = false := by
      intro db request
      simp [invoke, useRateLimiter, henabled]
    exact ⟨independent_of_constant fun db request _ => hadmitted db request,
      independent_of_constant fun db request _ => hadmitted db request⟩
  | true =>
    by_cases hmax : ∀ rule ∈ configuration.redisRateLimits, 0 < rule.maxRequests
    · have hapart : ∀ rule ∈ configuration.redisRateLimits,
          redisKey rule ip ∈ (configuration.restrictedRules.map fun rule => redisKey rule ip) →
            ¬ rule.Fillable := by
        intro rule hrule hkey hfillable
        obtain ⟨rule', hrule', heq⟩ := List.mem_map.mp hkey
        obtain ⟨hmem, hname⟩ := mem_restrictedRules.mp hrule'
        obtain ⟨-, hpath, hwindow⟩ := redisKey_inj heq
        rcases h with hdisabled | ⟨rule'', hrule'', hnonpos⟩ | hapart
        · rw [henabled] at hdisabled
          cases hdisabled
        · exact absurd (hmax rule'' hrule'') (by omega)
        · exact hapart rule hrule hfillable rule' hmem hname ⟨hpath.symm, hwindow.symm⟩
      constructor
      · exact independent_of_unwinding (unwinding_admitted henabled hmax hapart)
          fun t => ⟨allRecorded_empty t, allRecorded_empty t⟩
      · exact independent_of_unwinding (unwinding_normal henabled hmax hapart)
          fun t => ⟨allRecorded_empty t, allRecorded_empty t, AgreeOn.refl _ _ _⟩
    · push Not at hmax
      obtain ⟨rule, hrule, hnonpos⟩ := hmax
      constructor
      · exact independent_of_unwinding (unwinding_restricted henabled hrule hnonpos)
          fun t => AgreeOn.refl _ _ _
      · have hrefused : ∀ db (request : FieldRequest), request.type = .normal →
            (invoke configuration ip db request).2 = true := by
          intro db request htype
          rw [invoke_normal henabled db htype]
          exact refused_of_nonpos hrule hnonpos db
        exact independent_of_constant hrefused

/-! ## A rule that restricted requests fill -/

/-- The microseconds from second `base` on. -/
def slot (base k : ℕ) : Time := ⟨base + k / 1000000, k % 1000000, Nat.mod_lt _ (by decide)⟩

theorem micros_slot (base k : ℕ) : (slot base k).micros = base * 1000000 + k := by
  unfold slot Time.micros
  dsimp only
  omega

theorem notAfter_slot {base k k' : ℕ} (h : k ≤ k') : NotAfter (slot base k) (slot base k') := by
  unfold NotAfter
  rw [micros_slot, micros_slot]
  omega

/-- A call in each of the first `n` microseconds. -/
def burst (ip : IPAddress) (base n : ℕ) : List Call := (List.range n).map fun k => ⟨ip, slot base k⟩

variable {base n w : ℕ}

theorem burst_succ (ip : IPAddress) (base n : ℕ) :
    burst ip base (n + 1) = burst ip base n ++ [⟨ip, slot base n⟩] := by
  simp [burst, List.range_succ]

theorem mem_burst {call : Call} (h : call ∈ burst ip base n) :
    ∃ k < n, call = ⟨ip, slot base k⟩ := by
  obtain ⟨k, hk, rfl⟩ := List.mem_map.mp h
  exact ⟨k, List.mem_range.mp hk, rfl⟩

/-- Seconds from `10 ^ w` on have `w + 1` digits for a while. -/
theorem length_toString_slot {k : ℕ} (hw : 1 ≤ w) (hk : k < 1000000 * w) :
    (toString (slot (10 ^ w) k).seconds).length = w + 1 := by
  have hlt : w < 10 ^ w := Nat.lt_pow_self (by decide)
  have hseconds : (slot (10 ^ w) k).seconds = 10 ^ w + k / 1000000 := rfl
  have hsmall : 10 ^ w + k / 1000000 < 10 ^ (w + 1) := by
    rw [pow_succ]
    omega
  have hle := (Nat.length_repr_le_iff (Nat.succ_pos w)).mpr hsmall
  have hnot := mt (Nat.length_repr_le_iff hw).mp (not_lt.mpr (Nat.le_add_right (10 ^ w) (k / 1000000)))
  rw [hseconds]
  show (Nat.repr _).length = w + 1
  omega

theorem clock_burst (ip : IPAddress) (hw : 1 ≤ w) (hn : n ≤ 1000000 * w) :
    Clock (w + 1) (burst ip (10 ^ w) n) where
  increasing := by
    rw [burst, List.map_map, List.pairwise_map]
    refine List.pairwise_lt_range.imp ?_
    intro k k' hlt
    simp only [Function.comp_apply, micros_slot]
    omega
  digits := by
    intro call hcall
    obtain ⟨k, hk, rfl⟩ := mem_burst hcall
    exact length_toString_slot hw (by omega)

/-- What a call counts after calls that were all admitted: at most these calls, and all of them if
    its window reaches back to the first one. -/
theorem zcard_fresh_burst (hrule : rule ∈ rules) (hwindow : 1 ≤ rule.windowSeconds) (hw : 1 ≤ w)
    (hn : n ≤ 1000000 * w) {k : ℕ} (hk : n ≤ k + 1)
    (hadmitted : (history rules (burst ip (10 ^ w) n)).admitted = burst ip (10 ^ w) n) :
    zcard (fresh (slot (10 ^ w) k) rule.windowSeconds
        ((history rules (burst ip (10 ^ w) n)).db (redisKey rule ip))) ≤ n ∧
      ((k / 1000000 : ℕ) < rule.windowSeconds → zcard (fresh (slot (10 ^ w) k) rule.windowSeconds
        ((history rules (burst ip (10 ^ w) n)).db (redisKey rule ip))) = n) := by
  have hseconds : ∀ call ∈ burst ip (10 ^ w) n,
      (call.time.seconds : ℤ) ≤ (slot (10 ^ w) k).seconds := by
    intro call hcall
    obtain ⟨k', hk', rfl⟩ := mem_burst hcall
    exact Int.ofNat_le.mpr (Time.seconds_mono (notAfter_slot (by omega)))
  have hinv : RuleInv rule.windowSeconds ip _ _ _ _ :=
    ruleInv_history hrule hwindow (clock_burst ip hw hn) hseconds
  have hcount := hinv.live.zcard_trim (by rw [hadmitted]; exact hseconds)
  rw [hadmitted] at hcount
  have hlength : (burst ip (10 ^ w) n).length = n := by simp [burst]
  rw [fresh, hcount]
  constructor
  · have hle : (inWindow ip rule.windowSeconds (slot (10 ^ w) k).seconds
        (burst ip (10 ^ w) n)).length ≤ (burst ip (10 ^ w) n).length := List.length_filter_le _ _
    omega
  · intro hreaches
    have hall : inWindow ip rule.windowSeconds (slot (10 ^ w) k).seconds (burst ip (10 ^ w) n) =
        burst ip (10 ^ w) n := by
      apply List.filter_eq_self.mpr
      intro call hcall
      have hle := hseconds call hcall
      obtain ⟨k', hk', rfl⟩ := mem_burst hcall
      refine decide_eq_true ⟨rfl, ?_, hle⟩
      show ((10 ^ w + k / 1000000 : ℕ) : ℤ) - rule.windowSeconds < ((10 ^ w + k' / 1000000 : ℕ) : ℤ)
      omega
    rw [hall, hlength]

/-- As many restricted requests as the tightest limit allows are admitted. -/
theorem admitted_burst (hw : 1 ≤ w) (hn : n ≤ 1000000 * w)
    (hmax : ∀ rule ∈ rules, 0 < rule.maxRequests)
    (htight : ∀ rule ∈ rules, rule.Fillable → (n : ℤ) ≤ rule.maxRequests) :
    AllRecorded (slot (10 ^ w) n) (history rules (burst ip (10 ^ w) n)).db ∧
      (history rules (burst ip (10 ^ w) n)).admitted = burst ip (10 ^ w) n := by
  induction n with
  | zero => exact ⟨allRecorded_empty _, rfl⟩
  | succ n ih =>
    obtain ⟨hdb, hadmitted⟩ := ih (by omega) fun rule hrule hfillable => by
      have := htight rule hrule hfillable
      push_cast at this
      omega
    have hlimited : (isLimited rules ip (slot (10 ^ w) n)
        (history rules (burst ip (10 ^ w) n)).db).2 = false := by
      rw [← Bool.not_eq_true, isLimited_iff_fresh]
      rintro ⟨rule, hrule, hfull⟩
      by_cases hfillable : rule.Fillable
      · have hcount := (zcard_fresh_burst hrule hfillable.1 hw (by omega) (Nat.le_succ n) hadmitted).1
        have := htight rule hrule hfillable
        push_cast at this
        omega
      · exact not_full hdb (hmax rule hrule) hfillable hfull
    rw [burst_succ, history_snoc]
    constructor
    · exact (hdb.isLimited rules ip).mono (notAfter_slot (Nat.le_succ n))
    · show (if (isLimited rules ip (slot (10 ^ w) n) (history rules (burst ip (10 ^ w) n)).db).2
        then _ else _) = _
      rw [hlimited, if_neg Bool.false_ne_true, hadmitted]

/-- The restricted requests of a burst lead where the calls of the limiter lead. -/
theorem final_restricted (henabled : configuration.rateLimiterEnabled = true) (calls : List Call)
    (hip : ∀ call ∈ calls, call.ip = ip) :
    final (invoke configuration ip) (calls.map fun call => ⟨.restricted, call.time⟩) (fun _ => none) =
      (history configuration.restrictedRules calls).db := by
  induction calls using List.reverseRecOn with
  | nil => rfl
  | append_singleton calls call ih =>
    have hcalls := ih fun call' hcall' => hip call' (List.mem_append_left _ hcall')
    rw [history_snoc, List.map_append, final_append, hcalls]
    show (invoke configuration ip _ _).1 = _
    rw [invoke_restricted henabled _ rfl, ← hip call (by simp)]
    rfl

/-- A rule that can be filled, the tightest of those with a key that restricted requests are charged
    to. -/
structure TightestShared (configuration : Configuration) (rule : RateLimitRule) : Prop where
  mem : rule ∈ configuration.redisRateLimits
  fillable : rule.Fillable
  shared : ∃ rule' ∈ configuration.restrictedRules,
    rule'.pathKey = rule.pathKey ∧ rule'.windowSeconds = rule.windowSeconds
  tightest : ∀ rule' ∈ configuration.restrictedRules, rule'.Fillable →
    rule.maxRequests ≤ rule'.maxRequests

theorem exists_tightestShared
    (hmax : ∀ rule ∈ configuration.redisRateLimits, 0 < rule.maxRequests)
    (h : ∃ rule ∈ configuration.redisRateLimits, rule.Fillable ∧
      ∃ rule' ∈ configuration.redisRateLimits, ¬ isNormal rule'.path ∧
        rule.pathKey = rule'.pathKey ∧ rule.windowSeconds = rule'.windowSeconds) :
    ∃ rule, TightestShared configuration rule := by
  let Shared : Set RateLimitRule := fun rule =>
    rule ∈ configuration.redisRateLimits ∧ rule.Fillable ∧
      ∃ rule' ∈ configuration.restrictedRules,
        rule'.pathKey = rule.pathKey ∧ rule'.windowSeconds = rule.windowSeconds
  have hnonempty : Shared.Nonempty := by
    obtain ⟨rule, hrule, hfillable, rule', hrule', hname, hpath, hwindow⟩ := h
    exact ⟨rule, hrule, hfillable, rule', mem_restrictedRules.mpr ⟨hrule', hname⟩, hpath.symm,
      hwindow.symm⟩
  obtain ⟨rule, ⟨hrule, hfillable, hshared⟩, hmin⟩ :=
    (measure fun rule : RateLimitRule => rule.maxRequests.toNat).wf.has_min Shared hnonempty
  refine ⟨rule, hrule, hfillable, hshared, ?_⟩
  intro rule' hrule' hfillable'
  -- a rule for restricted fields shares its own key
  have hmem := (mem_restrictedRules.mp hrule').1
  have hnot : ¬ rule'.maxRequests.toNat < rule.maxRequests.toNat :=
    hmin rule' ⟨hmem, hfillable', rule', hrule', rfl, rfl⟩
  have := hmax rule' hmem
  omega

/-- As many restricted requests as such a rule allows are admitted, and fill it. -/
theorem refused_after_burst
    (hmax : ∀ rule ∈ configuration.redisRateLimits, 0 < rule.maxRequests)
    (h : TightestShared configuration rule) (ip : IPAddress) :
    ∃ base n k, n ≤ k + 1 ∧ (isLimited configuration.redisRateLimits ip (slot base k)
      (history configuration.restrictedRules (burst ip base n)).db).2 = true := by
  obtain ⟨hwindow, hlimit⟩ := h.fillable
  obtain ⟨rule', hrule', hpath, hsame⟩ := h.shared
  have hpos := hmax rule h.mem
  have hw : 1 ≤ rule.windowSeconds.toNat := by omega
  have hn : rule.maxRequests.toNat ≤ 1000000 * rule.windowSeconds.toNat := by omega
  have htight : ∀ rule' ∈ configuration.restrictedRules, rule'.Fillable →
      (rule.maxRequests.toNat : ℤ) ≤ rule'.maxRequests := by
    intro rule' hrule' hfillable
    have := h.tightest rule' hrule' hfillable
    omega
  have hadmitted : (history configuration.restrictedRules
      (burst ip (10 ^ rule.windowSeconds.toNat) rule.maxRequests.toNat)).admitted = _ :=
    (admitted_burst hw hn (fun rule' hrule' => hmax rule' (mem_restrictedRules.mp hrule').1) htight).2
  refine ⟨10 ^ rule.windowSeconds.toNat, rule.maxRequests.toNat, rule.maxRequests.toNat - 1,
    by omega, isLimited_iff_fresh.mpr ⟨rule, h.mem, ?_⟩⟩
  have hcount := (zcard_fresh_burst (k := rule.maxRequests.toNat - 1) hrule' (by omega) hw hn
    (by omega) hadmitted).2 (by omega)
  rw [hsame, redisKey_congr hpath hsame] at hcount
  omega

theorem admitted_first (hmax : ∀ rule ∈ rules, 0 < rule.maxRequests) (ip : IPAddress) (now : Time) :
    (isLimited rules ip now fun _ => none).2 = false := by
  rw [← Bool.not_eq_true, isLimited_iff_fresh]
  rintro ⟨rule, hrule, hfull⟩
  have := hmax rule hrule
  have hzero : zcard (fresh now rule.windowSeconds none) = 0 := rfl
  omega

/-- Where the key of a rule that can be filled is shared, a normal request is refused after a burst
    of restricted ones. -/
theorem separate_of_independent (h : Independent configuration ip .normal) : Separate configuration := by
  by_contra hnot
  simp only [Separate, not_or, Bool.not_eq_false] at hnot
  obtain ⟨henabled, hmax, hshared⟩ := hnot
  push Not at hmax
  obtain ⟨rule, hrule⟩ := exists_tightestShared hmax (by
    simp only [not_forall, not_not, exists_prop] at hshared
    exact hshared)
  obtain ⟨base, n, k, hk, hrefused⟩ := refused_after_burst hmax hrule ip
  let restricted : List FieldRequest :=
    (burst ip base n).map fun call => ⟨.restricted, call.time⟩
  let request : FieldRequest := ⟨.normal, slot base k⟩
  have hrestricted : ∀ request' ∈ restricted, request'.isOf .normal = false := by
    intro request' hrequest'
    obtain ⟨call, -, rfl⟩ := List.mem_map.mp hrequest'
    rfl
  have horder : InOrder (restricted ++ [request]) := by
    have htimes : (restricted ++ [request]).map FieldRequest.time =
        (List.range n).map (slot base) ++ [slot base k] := by
      simp [restricted, request, burst, Function.comp_def]
    rw [InOrder, htimes, List.pairwise_append]
    refine ⟨?_, List.pairwise_singleton _ _, ?_⟩
    · rw [List.pairwise_map]
      exact List.pairwise_lt_range.imp fun hlt => notAfter_slot hlt.le
    · intro t ht t' ht'
      obtain ⟨k', hk', rfl⟩ := List.mem_map.mp ht
      have := List.mem_range.mp hk'
      rw [List.mem_singleton.mp ht']
      exact notAfter_slot (by omega)
  have hfinal : final (invoke configuration ip) restricted (fun _ => none) =
      (history configuration.restrictedRules (burst ip base n)).db := by
    apply final_restricted henabled
    intro call hcall
    obtain ⟨k', -, rfl⟩ := mem_burst hcall
    rfl
  have hsame := h (restricted ++ [request]) [request] horder (List.pairwise_singleton _ _) (by
    rw [List.filter_append, List.filter_eq_nil_iff.mpr fun r hr => by simp [hrestricted r hr],
      List.nil_append])
  rw [answers, answers, trace_append, List.filter_append, filter_trace_eq_nil hrestricted, hfinal,
    List.nil_append] at hsame
  have hanswers : (invoke configuration ip
      (history configuration.restrictedRules (burst ip base n)).db request).2 =
      (invoke configuration ip (fun _ => none) request).2 := by
    simpa [trace, FieldRequest.isOf, request] using hsame
  -- alone, the normal request is admitted
  rw [invoke_normal henabled _ rfl, invoke_normal henabled _ rfl, hrefused,
    admitted_first hmax] at hanswers
  cases hanswers

/-- **The quotas are apart exactly if the rules are.** -/
theorem quotas_independent_iff (configuration : Configuration) (ip : IPAddress) :
    (Independent configuration ip .restricted ∧ Independent configuration ip .normal) ↔
      Separate configuration :=
  ⟨fun h => separate_of_independent h.2, fun h => independent_of_separate h ip⟩

/-- The limits of `appsettings.json`: restricted requests that use up their own limit lock the
    normal fields too. -/
theorem quotas_shared :
    ¬ ∀ (configuration : Configuration) (ip : IPAddress),
      (∀ rule ∈ configuration.redisRateLimits,
        rule.pathKey = "normal" ∨ rule.pathKey = "restricted") →
      Independent configuration ip .restricted ∧ Independent configuration ip .normal := by
  intro h
  let restrictedRule : RateLimitRule := ⟨"", "restricted", 3600, 100⟩
  let normalRule : RateLimitRule := ⟨"normal", "", 3600, 500⟩
  have hseparate : Separate ⟨true, [restrictedRule, normalRule]⟩ :=
    separate_of_independent (h _ ⟨"127.0.0.1", by decide⟩ (by decide)).2
  rcases hseparate with hdisabled | ⟨rule, hrule, hmax⟩ | hapart
  · cases hdisabled
  · revert rule
    decide
  · exact hapart restrictedRule (by simp) (by decide) restrictedRule (by simp)
      (by decide +kernel) ⟨rfl, rfl⟩

end Shortener.Limits
