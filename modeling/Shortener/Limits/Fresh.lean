import Shortener.Limits.RateLimiter

/-!
# What later calls can see of a sorted set

A call at time `now` reads of a key what is left after the expiry and the trimming of its round.
Two states of Redis that agree on this answer alike, now and later.

* `fresh_fresh`: what an earlier call has trimmed, a later call trims as well.
* `isLimited_iff_fresh`, `fresh_of_refused`, `fresh_of_not_mem`: a call in these terms.
* `AgreeOn.isLimited`: one call from two states that agree, for lists of rules with the same
  keys.
* `SameLimit.answer`: such calls answer alike if each of the lists has a limit for a key that is
  as tight as the other's.
-/

namespace Shortener.Limits

open Shortener.DotNet

variable {value : Value} {now later : Time} {rules rules' : List RateLimitRule}
  {rule rule' : RateLimitRule} {ip ip' : IPAddress} {db db' : Redis} {keys : Set String}
  {window : ℤ}

theorem Time.seconds_mono (h : now.micros ≤ later.micros) : now.seconds ≤ later.seconds := by
  have := now.lt
  have := later.lt
  unfold Time.micros at h
  omega

theorem Time.millis_mono (h : now.micros ≤ later.micros) : now.millis ≤ later.millis := by
  have := now.lt
  have := later.lt
  unfold Time.micros at h
  unfold Time.millis
  omega

/-- The value that a call reads: what has not expired, trimmed. -/
def fresh (now : Time) (window : ℤ) (value : Value) : Value :=
  zremrangebyscore 0 (now.seconds - window) (live now value)

theorem trimmed_eq_fresh (now : Time) (db : Redis) (rule : RateLimitRule) (ip : IPAddress) :
    trimmed now db rule ip = fresh now rule.windowSeconds (db (redisKey rule ip)) := rfl

theorem live_live (h : now.millis ≤ later.millis) (value : Value) :
    live later (live now value) = live later value := by
  cases value with
  | none => rfl
  | some set =>
    cases hdeadline : set.deadline with
    | none => simp [live, hdeadline]
    | some deadline =>
      by_cases hnow : deadline < now.millis
      · have hlater : deadline < later.millis := hnow.trans_le h
        simp [live, hdeadline, hnow, hlater]
      · simp [live, hdeadline, hnow]

/-- Trimming and expiry do not get in each other's way. -/
theorem live_zremrangebyscore (now : Time) (min max : ℤ) (value : Value) :
    live now (zremrangebyscore min max value) = zremrangebyscore min max (live now value) := by
  cases value with
  | none => rfl
  | some set =>
    by_cases hexpired : set.deadline.any (· < now.millis) = true
    · rw [live, if_pos hexpired]
      simp only [zremrangebyscore]
      split_ifs
      · rfl
      · rw [live, if_pos hexpired]
    · rw [live, if_neg hexpired]
      simp only [zremrangebyscore]
      split_ifs
      · rfl
      · rw [live, if_neg hexpired]

theorem fresh_live (h : now.micros ≤ later.micros) (window : ℤ) (value : Value) :
    fresh later window (live now value) = fresh later window value := by
  rw [fresh, fresh, live_live (Time.millis_mono h)]

theorem fresh_fresh (h : now.micros ≤ later.micros) (window : ℤ) (value : Value) :
    fresh later window (fresh now window value) = fresh later window value := by
  have hseconds := Time.seconds_mono h
  rw [fresh, fresh, live_zremrangebyscore, live_live (Time.millis_mono h),
    zremrangebyscore_zremrangebyscore (by omega), fresh]

/-! ## One call -/

theorem redisKey_congr (hpath : rule.pathKey = rule'.pathKey)
    (hwindow : rule.windowSeconds = rule'.windowSeconds) (ip : IPAddress) :
    redisKey rule ip = redisKey rule' ip := by
  rw [redisKey, redisKey, hpath, hwindow]

theorem isLimited_iff_fresh : (isLimited rules ip now db).2 = true ↔
    ∃ rule ∈ rules, rule.maxRequests ≤ zcard (fresh now rule.windowSeconds (db (redisKey rule ip))) :=
  (isLimited_spec rules ip now db).limited_iff

/-- A refused call leaves what had not expired, trimmed or not. -/
theorem of_refused (hrefused : (isLimited rules ip now db).2 = true) (rule : RateLimitRule)
    (ip' : IPAddress) :
    (isLimited rules ip now db).1 (redisKey rule ip') = live now (db (redisKey rule ip')) ∨
      (isLimited rules ip now db).1 (redisKey rule ip') =
        fresh now rule.windowSeconds (db (redisKey rule ip')) := by
  have hspec := isLimited_spec rules ip now db
  by_cases hkey : redisKey rule ip' ∈ rules.map fun rule => redisKey rule ip
  · obtain ⟨rule', hrule', heq⟩ := List.mem_map.mp hkey
    rw [← heq, ← (redisKey_inj heq).2.2, ← trimmed_eq_fresh]
    exact hspec.refused hrefused rule' hrule'
  · exact .inl (hspec.frame _ hkey)

/-- No later call sees that a refused call was made. -/
theorem fresh_of_refused (hrefused : (isLimited rules ip now db).2 = true)
    (h : now.micros ≤ later.micros) (rule : RateLimitRule) (ip' : IPAddress) :
    fresh later rule.windowSeconds ((isLimited rules ip now db).1 (redisKey rule ip')) =
      fresh later rule.windowSeconds (db (redisKey rule ip')) := by
  rcases of_refused hrefused rule ip' with hpost | hpost
  · rw [hpost, fresh_live h]
  · rw [hpost, fresh_fresh h]

/-- No later call sees at another key that a call was made. -/
theorem fresh_of_not_mem (hkey : redisKey rule ip' ∉ rules.map fun rule => redisKey rule ip)
    (h : now.micros ≤ later.micros) :
    fresh later rule.windowSeconds ((isLimited rules ip now db).1 (redisKey rule ip')) =
      fresh later rule.windowSeconds (db (redisKey rule ip')) := by
  rw [(isLimited_spec rules ip now db).frame _ hkey, fresh_live h]

/-- A refused call removes nothing that is above the start of a window. -/
theorem above_of_refused (hrefused : (isLimited rules ip now db).2 = true) (rule : RateLimitRule)
    (ip' : IPAddress) :
    above (now.seconds - rule.windowSeconds)
        ((isLimited rules ip now db).1 (redisKey rule ip')).entries =
      above (now.seconds - rule.windowSeconds) (live now (db (redisKey rule ip'))).entries := by
  rcases of_refused hrefused rule ip' with hpost | hpost
  · rw [hpost]
  · rw [hpost, fresh, above_zremrangebyscore]

/-- What an admitted call leaves at its keys. -/
theorem of_admitted (hadmitted : (isLimited rules ip now db).2 = false)
    (hkey : redisKey rule ip' ∈ rules.map fun rule => redisKey rule ip) :
    (isLimited rules ip now db).1 (redisKey rule ip') =
      expire now rule.windowSeconds (zadd now.seconds now.member
        (fresh now rule.windowSeconds (db (redisKey rule ip')))) := by
  obtain ⟨rule', hrule', heq⟩ := List.mem_map.mp hkey
  rw [← heq, (isLimited_spec rules ip now db).admitted hadmitted rule' hrule', trimmed_eq_fresh,
    (redisKey_inj heq).2.2]

/-! ## States that agree -/

/-- A call at time `now` reads the same at these keys. -/
def AgreeOn (keys : Set String) (now : Time) (db db' : Redis) : Prop :=
  ∀ rule ip, redisKey rule ip ∈ keys →
    fresh now rule.windowSeconds (db (redisKey rule ip)) =
      fresh now rule.windowSeconds (db' (redisKey rule ip))

theorem AgreeOn.refl (keys : Set String) (now : Time) (db : Redis) : AgreeOn keys now db db :=
  fun _ _ _ => rfl

theorem AgreeOn.mono (hagree : AgreeOn keys now db db') (h : now.micros ≤ later.micros) :
    AgreeOn keys later db db' := by
  intro rule ip hkey
  rw [← fresh_fresh h, hagree rule ip hkey, fresh_fresh h]

/-- Two calls with the same keys and the same answer. -/
theorem AgreeOn.isLimited (hagree : AgreeOn keys now db db')
    (hkeys : ∀ key, key ∈ (rules.map fun rule => redisKey rule ip) ↔
      key ∈ rules'.map fun rule => redisKey rule ip)
    (hanswer : (isLimited rules ip now db).2 = (isLimited rules' ip now db').2)
    (h : now.micros ≤ later.micros) :
    AgreeOn keys later (Limits.isLimited rules ip now db).1 (Limits.isLimited rules' ip now db').1 := by
  intro rule ip' hkey
  have hlater := hagree.mono h rule ip' hkey
  cases hlimited : (Limits.isLimited rules ip now db).2 with
  | true =>
    rw [fresh_of_refused hlimited h, fresh_of_refused (hanswer ▸ hlimited) h, hlater]
  | false =>
    by_cases hmem : redisKey rule ip' ∈ rules.map fun rule => redisKey rule ip
    · rw [of_admitted hlimited hmem, of_admitted (hanswer ▸ hlimited) ((hkeys _).mp hmem),
        hagree rule ip' hkey]
    · rw [fresh_of_not_mem hmem h, fresh_of_not_mem (mt (hkeys _).mpr hmem) h, hlater]

/-- A call that is refused, or charges none of the keys, leaves a state that agrees. -/
theorem agreeOn_isLimited (h : now.micros ≤ later.micros)
    (hkeys : (isLimited rules ip now db).2 = true ∨
      ∀ key ∈ keys, key ∉ rules.map fun rule => redisKey rule ip) :
    AgreeOn keys later (isLimited rules ip now db).1 db := by
  intro rule ip' hkey
  rcases hkeys with hrefused | hkeys
  · exact fresh_of_refused hrefused h rule ip'
  · exact fresh_of_not_mem (hkeys _ hkey) h

theorem AgreeOn.trans {db'' : Redis} (h : AgreeOn keys now db db') (h' : AgreeOn keys now db' db'') :
    AgreeOn keys now db db'' :=
  fun rule ip hkey => (h rule ip hkey).trans (h' rule ip hkey)

/-- `kept` are some of the rules, with the tightest limit for each path key and window. -/
structure SameLimit (kept rules : List RateLimitRule) : Prop where
  mem : ∀ rule ∈ kept, rule ∈ rules
  tightest : ∀ rule ∈ rules, ∃ rule' ∈ kept, rule'.pathKey = rule.pathKey ∧
    rule'.windowSeconds = rule.windowSeconds ∧ rule'.maxRequests ≤ rule.maxRequests

theorem SameLimit.refl (rules : List RateLimitRule) : SameLimit rules rules :=
  ⟨fun _ h => h, fun rule h => ⟨rule, h, rfl, rfl, le_rfl⟩⟩

theorem SameLimit.mem_keys_iff (h : SameLimit rules rules') (ip : IPAddress) (key : String) :
    key ∈ (rules.map fun rule => redisKey rule ip) ↔
      key ∈ rules'.map fun rule => redisKey rule ip := by
  constructor
  · intro hkey
    obtain ⟨rule, hrule, rfl⟩ := List.mem_map.mp hkey
    exact List.mem_map_of_mem (h.mem rule hrule)
  · intro hkey
    obtain ⟨rule, hrule, rfl⟩ := List.mem_map.mp hkey
    obtain ⟨rule', hrule', hpath, hwindow, -⟩ := h.tightest rule hrule
    exact List.mem_map.mpr ⟨rule', hrule', redisKey_congr hpath hwindow ip⟩

theorem SameLimit.answer (h : SameLimit rules rules') (hagree : AgreeOn Set.univ now db db')
    (ip : IPAddress) :
    (isLimited rules ip now db).2 = (isLimited rules' ip now db').2 := by
  rw [Bool.eq_iff_iff, isLimited_iff_fresh, isLimited_iff_fresh]
  constructor
  · rintro ⟨rule, hrule, hmax⟩
    refine ⟨rule, h.mem rule hrule, ?_⟩
    rwa [← hagree rule ip trivial]
  · rintro ⟨rule, hrule, hmax⟩
    obtain ⟨rule', hrule', hpath, hwindow, htight⟩ := h.tightest rule hrule
    refine ⟨rule', hrule', htight.trans ?_⟩
    rwa [redisKey_congr hpath hwindow, hwindow, hagree rule ip trivial]

end Shortener.Limits
