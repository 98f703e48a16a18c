import Mathlib

/-!
# Sorted sets of Redis

The commands of Redis that the rate limiter calls, on the value of one key. An empty sorted set
does not exist. A key with a deadline is gone once the clock, in milliseconds, has passed it.

* `entries_zremrangebyscore`: removing low scores leaves the entries above them.
* `zremrangebyscore_zremrangebyscore`, `expire_zadd_idem`: a round of a loop of the script that
  is run once more on the same key changes nothing.
* `score_le_of_not_mem_live`, `above_live`: a key whose deadline covers its entries loses none
  that is still young.
-/

namespace Shortener.Limits

/-- The reply of `TIME`. -/
structure Time where
  seconds : ℕ
  microseconds : ℕ
  lt : microseconds < 1000000
  deriving DecidableEq, Repr

/-- Microseconds since the epoch. -/
def Time.micros (t : Time) : ℕ := t.seconds * 1000000 + t.microseconds

/-- Milliseconds since the epoch. -/
def Time.millis (t : Time) : ℤ := (t.seconds * 1000 + t.microseconds / 1000 : ℕ)

/-- A member of a sorted set, with its score. -/
structure Entry where
  score : ℤ
  member : String
  deriving DecidableEq, Repr

/-- A sorted set and its deadline; the entries are in the order in which they were added. -/
structure SortedSet where
  entries : List Entry
  deadline : Option ℤ
  deriving DecidableEq, Repr

/-- The value of a key; `none` is a key that does not exist. -/
abbrev Value := Option SortedSet

/-- The members; a key without a value has none. -/
def Value.entries (value : Value) : List Entry := value.elim [] SortedSet.entries

/-- What is left of the value at time `now`. -/
def live (now : Time) : Value → Value
  | none => none
  | some set => if set.deadline.any (· < now.millis) then none else some set

/-- `ZREMRANGEBYSCORE key min max`. -/
def zremrangebyscore (min max : ℤ) : Value → Value
  | none => none
  | some set =>
    let entries := set.entries.filter fun entry => ¬ (min ≤ entry.score ∧ entry.score ≤ max)
    if entries = [] then none else some { set with entries := entries }

/-- `ZCARD key`. -/
def zcard (value : Value) : ℤ := value.entries.length

/-- `ZADD key score member`. -/
def zadd (score : ℤ) (member : String) : Value → Value
  | none => some ⟨[⟨score, member⟩], none⟩
  | some set =>
    if set.entries.any fun entry => entry.member = member then
      some { set with
        entries := set.entries.map fun entry =>
          if entry.member = member then { entry with score := score } else entry }
    else some { set with entries := set.entries ++ [⟨score, member⟩] }

/-- `EXPIRE key seconds`. -/
def expire (now : Time) (seconds : ℤ) : Value → Value
  | none => none
  | some set =>
    if seconds ≤ 0 then none else some { set with deadline := some (now.millis + seconds * 1000) }

/-! ## What the commands do to the entries -/

variable {value : Value} {now : Time} {seconds score min max : ℤ} {member : String}

/-- The entries above a score. -/
def above (bound : ℤ) (entries : List Entry) : List Entry :=
  entries.filter fun entry => bound < entry.score

theorem above_above {bound bound' : ℤ} (h : bound ≤ bound') (entries : List Entry) :
    above bound' (above bound entries) = above bound' entries := by
  rw [above, above, above, List.filter_filter]
  apply List.filter_congr
  intro entry _
  rw [← Bool.decide_and, decide_eq_decide]
  omega

theorem above_append (bound : ℤ) (entries entries' : List Entry) :
    above bound (entries ++ entries') = above bound entries ++ above bound entries' :=
  List.filter_append ..

/-- Of a set with scores from `min` on, the entries above `max` remain. -/
theorem entries_zremrangebyscore (hmin : ∀ entry ∈ value.entries, min ≤ entry.score) :
    Value.entries (zremrangebyscore min max value) = above max value.entries := by
  cases value with
  | none => rfl
  | some set =>
    have hfilter : set.entries.filter (fun entry => ¬ (min ≤ entry.score ∧ entry.score ≤ max)) =
        above max set.entries := by
      apply List.filter_congr
      intro entry hentry
      have := hmin entry hentry
      rw [decide_eq_decide]
      omega
    simp only [zremrangebyscore, hfilter]
    split_ifs with h
    · exact h.symm
    · rfl

/-- The entries above `max` remain, whatever `min` is. -/
theorem above_zremrangebyscore (min max : ℤ) (value : Value) :
    above max (Value.entries (zremrangebyscore min max value)) = above max value.entries := by
  cases value with
  | none => rfl
  | some set =>
    have hfilter : above max (set.entries.filter fun entry =>
        ¬ (min ≤ entry.score ∧ entry.score ≤ max)) = above max set.entries := by
      rw [above, above, List.filter_filter]
      apply List.filter_congr
      intro entry _
      rw [← Bool.decide_and, decide_eq_decide]
      omega
    simp only [zremrangebyscore]
    split_ifs with h
    · rw [h] at hfilter
      exact hfilter
    · exact hfilter

theorem zcard_eq (value : Value) : zcard value = value.entries.length := rfl

/-! No command but `ZADD` makes an entry. -/

theorem entries_live_sublist (now : Time) (value : Value) :
    (Value.entries (live now value)).Sublist value.entries := by
  cases value with
  | none => exact List.Sublist.refl _
  | some set =>
    rw [live]
    split_ifs
    · exact List.nil_sublist _
    · exact List.Sublist.refl _

theorem entries_zremrangebyscore_sublist (min max : ℤ) (value : Value) :
    (Value.entries (zremrangebyscore min max value)).Sublist value.entries := by
  cases value with
  | none => exact List.Sublist.refl _
  | some set =>
    simp only [zremrangebyscore]
    split_ifs
    · exact List.nil_sublist _
    · exact List.filter_sublist

theorem entries_expire_sublist (now : Time) (seconds : ℤ) (value : Value) :
    (Value.entries (expire now seconds value)).Sublist value.entries := by
  cases value with
  | none => exact List.Sublist.refl _
  | some set =>
    rw [expire]
    split_ifs
    · exact List.nil_sublist _
    · exact List.Sublist.refl _

theorem mem_entries_zremrangebyscore_of_lt {entry : Entry} (hentry : entry ∈ value.entries)
    (h : max < entry.score) : entry ∈ Value.entries (zremrangebyscore min max value) := by
  cases value with
  | none => cases hentry
  | some set =>
    have hmem : entry ∈ set.entries.filter fun entry => ¬ (min ≤ entry.score ∧ entry.score ≤ max) := by
      refine List.mem_filter.mpr ⟨hentry, decide_eq_true ?_⟩
      omega
    simp only [zremrangebyscore]
    rw [if_neg (List.ne_nil_of_mem hmem)]
    exact hmem

/-- The wider of two ranges counts. -/
theorem zremrangebyscore_zremrangebyscore {max' : ℤ} (h : max ≤ max') (value : Value) :
    zremrangebyscore min max' (zremrangebyscore min max value) = zremrangebyscore min max' value := by
  cases value with
  | none => rfl
  | some set =>
    have hfilter : (set.entries.filter fun entry => ¬ (min ≤ entry.score ∧ entry.score ≤ max)).filter
        (fun entry => ¬ (min ≤ entry.score ∧ entry.score ≤ max')) =
        set.entries.filter fun entry => ¬ (min ≤ entry.score ∧ entry.score ≤ max') := by
      rw [List.filter_filter]
      apply List.filter_congr
      intro entry _
      rw [← Bool.decide_and, decide_eq_decide]
      omega
    simp only [zremrangebyscore]
    by_cases hempty : (set.entries.filter fun entry =>
        ¬ (min ≤ entry.score ∧ entry.score ≤ max)) = []
    · rw [hempty, List.filter_nil] at hfilter
      rw [if_pos hempty, if_pos hfilter.symm]
    · rw [if_neg hempty]
      simp only [hfilter]

/-- `ZADD` leaves a set in which the member has the score. -/
theorem zadd_eq_some (score : ℤ) (member : String) (value : Value) :
    ∃ set, zadd score member value = some set ∧ ⟨score, member⟩ ∈ set.entries ∧
      ∀ entry ∈ set.entries, entry.member = member → entry = ⟨score, member⟩ := by
  cases value with
  | none => exact ⟨_, rfl, List.mem_singleton_self _, fun entry hentry _ => List.mem_singleton.mp hentry⟩
  | some set =>
    rw [zadd]
    split_ifs with hany
    · refine ⟨_, rfl, ?_, ?_⟩
      · obtain ⟨entry, hentry, hmember⟩ := List.any_eq_true.mp hany
        refine List.mem_map.mpr ⟨entry, hentry, ?_⟩
        rw [if_pos (of_decide_eq_true hmember), ← of_decide_eq_true hmember]
      · intro entry hentry hmember
        obtain ⟨entry', -, rfl⟩ := List.mem_map.mp hentry
        split_ifs at hmember ⊢ with h
        · rw [← h]
        · exact absurd hmember h
    · refine ⟨_, rfl, by simp, ?_⟩
      intro entry hentry hmember
      rcases List.mem_append.mp hentry with hentry | hentry
      · exact absurd (List.any_eq_true.mpr ⟨entry, hentry, decide_eq_true hmember⟩) hany
      · exact List.mem_singleton.mp hentry

/-- To add a member again at its score changes nothing. -/
theorem zadd_of_mem {set : SortedSet} (hmem : ⟨score, member⟩ ∈ set.entries)
    (hscore : ∀ entry ∈ set.entries, entry.member = member → entry = ⟨score, member⟩) :
    zadd score member (some set) = some set := by
  have hany : (set.entries.any fun entry => decide (entry.member = member)) = true :=
    List.any_eq_true.mpr ⟨_, hmem, decide_eq_true rfl⟩
  have hmap : (set.entries.map fun entry =>
      if entry.member = member then { entry with score := score } else entry) = set.entries := by
    refine (List.map_congr_left ?_).trans (List.map_id _)
    intro entry hentry
    split_ifs with h
    · rw [hscore entry hentry h]
      rfl
    · rfl
  rw [zadd, if_pos hany, hmap]

theorem expire_of_nonpos (h : seconds ≤ 0) (value : Value) : expire now seconds value = none := by
  cases value with
  | none => rfl
  | some set => rw [expire, if_pos h]

/-- The second loop may run a round twice. -/
theorem expire_zadd_idem (now : Time) (seconds score : ℤ) (member : String) (value : Value) :
    expire now seconds (zadd score member (expire now seconds (zadd score member value))) =
      expire now seconds (zadd score member value) := by
  by_cases h : seconds ≤ 0
  · rw [expire_of_nonpos h, expire_of_nonpos h]
  · obtain ⟨set, hset, hmem, hscore⟩ := zadd_eq_some score member value
    have hadd : zadd score member (some ⟨set.entries, some (now.millis + seconds * 1000)⟩) =
        some ⟨set.entries, some (now.millis + seconds * 1000)⟩ := zadd_of_mem hmem hscore
    rw [hset, expire, if_neg h, hadd, expire, if_neg h]

/-- A new member is added. -/
theorem entries_zadd (score : ℤ) (h : ∀ entry ∈ value.entries, entry.member ≠ member) :
    Value.entries (zadd score member value) = value.entries ++ [⟨score, member⟩] := by
  cases value with
  | none => rfl
  | some set =>
    have hnew : (set.entries.any fun entry => decide (entry.member = member)) = false := by
      rw [List.any_eq_false]
      intro entry hentry
      simpa using h entry hentry
    simp [zadd, hnew, Value.entries]

theorem entries_expire (hseconds : 0 < seconds) :
    Value.entries (expire now seconds value) = value.entries := by
  cases value with
  | none => rfl
  | some set => rw [expire, if_neg (by omega)]; rfl

/-! ## Deadlines -/

/-- The deadline of the value covers its entries: it is `window` seconds after a time that is
    not before any score. -/
def Covered (window : ℤ) (value : Value) : Prop :=
  ∀ set, value = some set → ∃ last : Time, set.deadline = some (last.millis + window * 1000) ∧
    ∀ entry ∈ set.entries, entry.score ≤ last.seconds

/-- Past the deadline all entries are at least `window` seconds old. -/
theorem score_le_of_expired {last : Time} {window : ℤ} (h : last.millis + window * 1000 < now.millis) :
    (last.seconds : ℤ) ≤ now.seconds - window := by
  have := last.lt
  have := now.lt
  unfold Time.millis at h
  omega

/-- What an expired key has lost is at least `window` seconds old. -/
theorem score_le_of_not_mem_live {window : ℤ} (hcovered : Covered window value) {entry : Entry}
    (hentry : entry ∈ value.entries) (hgone : entry ∉ Value.entries (live now value)) :
    entry.score ≤ now.seconds - window := by
  cases value with
  | none => cases hentry
  | some set =>
    obtain ⟨last, hdeadline, hscores⟩ := hcovered set rfl
    rw [live, hdeadline, Option.any_some] at hgone
    split_ifs at hgone with hexpired
    · exact (hscores entry hentry).trans (score_le_of_expired (of_decide_eq_true hexpired))
    · exact absurd hentry hgone

/-- An expired key has lost no entry above `now.seconds - window`. -/
theorem above_live {window bound : ℤ} (hcovered : Covered window value)
    (hbound : (now.seconds : ℤ) - window ≤ bound) :
    above bound (Value.entries (live now value)) = above bound value.entries := by
  have hgone : ∀ entry ∈ value.entries,
      entry ∉ Value.entries (live now value) → ¬ bound < entry.score := by
    intro entry hentry hnot
    have := score_le_of_not_mem_live hcovered hentry hnot
    omega
  cases value with
  | none => rfl
  | some set =>
    rw [live] at hgone ⊢
    split_ifs at hgone ⊢
    · symm
      apply List.filter_eq_nil_iff.mpr
      intro entry hentry
      simpa using hgone entry hentry List.not_mem_nil
    · rfl

theorem Covered.live {window : ℤ} (h : Covered window value) : Covered window (live now value) := by
  cases value with
  | none => exact h
  | some set =>
    rw [Limits.live]
    split_ifs
    · intro set' hset'
      cases hset'
    · exact h

theorem Covered.zremrangebyscore {window : ℤ} (h : Covered window value) :
    Covered window (zremrangebyscore min max value) := by
  cases value with
  | none => exact h
  | some set =>
    simp only [Limits.zremrangebyscore]
    split_ifs
    · intro set' hset'
      cases hset'
    · intro set' hset'
      obtain rfl := Option.some.inj hset'
      obtain ⟨last, hdeadline, hscores⟩ := h set rfl
      exact ⟨last, hdeadline, fun entry hentry => hscores entry (List.mem_of_mem_filter hentry)⟩

/-- `EXPIRE` covers a set of which no score is in the future. -/
theorem covered_expire {window : ℤ} (hwindow : 0 < window)
    (hscores : ∀ entry ∈ value.entries, entry.score ≤ now.seconds) :
    Covered window (expire now window value) := by
  cases value with
  | none =>
    intro set hset
    cases hset
  | some set =>
    rw [expire, if_neg (by omega)]
    intro set' hset'
    obtain rfl := Option.some.inj hset'
    exact ⟨now, rfl, hscores⟩

end Shortener.Limits
