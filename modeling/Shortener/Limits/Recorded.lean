import Shortener.Limits.Fresh

/-!
# How many requests a window can hold

The script stores a request under its time in microseconds, so a window of `w` seconds holds at
most `1000000 * w` of them. A limit above that is never reached.

* `AllRecorded.isLimited`: every stored entry is the time of a call, and no member is stored twice.
* `Recorded.zcard_fresh_le`: the bound on what a call counts.
-/

namespace Shortener.Limits

open Shortener.DotNet

variable {value : Value} {now later : Time} {rules : List RateLimitRule} {rule : RateLimitRule}
  {ip : IPAddress} {db : Redis} {window : ℤ}

/-- The entry of a call. -/
def Time.entry (t : Time) : Entry := ⟨t.seconds, t.member⟩

/-- The entries are times up to `now`, each member once. -/
structure Recorded (now : Time) (value : Value) : Prop where
  times : ∀ entry ∈ value.entries, ∃ t : Time, t.micros ≤ now.micros ∧ entry = t.entry
  members : (value.entries.map Entry.member).Nodup

theorem Recorded.mono (h : Recorded now value) (hle : now.micros ≤ later.micros) :
    Recorded later value := by
  refine ⟨?_, h.members⟩
  intro entry hentry
  obtain ⟨t, ht, heq⟩ := h.times entry hentry
  exact ⟨t, ht.trans hle, heq⟩

theorem Recorded.of_sublist {value' : Value} (h : Recorded now value)
    (hsub : value'.entries.Sublist value.entries) : Recorded now value' :=
  ⟨fun entry hentry => h.times entry (hsub.subset hentry), h.members.sublist (hsub.map _)⟩

theorem entries_fresh_sublist (now : Time) (window : ℤ) (value : Value) :
    (Value.entries (fresh now window value)).Sublist value.entries :=
  (entries_zremrangebyscore_sublist 0 _ _).trans (entries_live_sublist now value)

theorem Recorded.zadd (h : Recorded now value) :
    Recorded now (zadd now.seconds now.member value) := by
  cases value with
  | none =>
    refine ⟨?_, List.nodup_singleton _⟩
    intro entry hentry
    exact ⟨now, le_rfl, List.mem_singleton.mp hentry⟩
  | some set =>
    rw [Limits.zadd]
    split_ifs with hany
    · constructor
      · intro entry hentry
        obtain ⟨entry', hentry', rfl⟩ := List.mem_map.mp hentry
        split_ifs with hmember
        · exact ⟨now, le_rfl, by rw [hmember, Time.entry]⟩
        · exact h.times entry' hentry'
      · have hmembers : (set.entries.map fun entry => if entry.member = now.member
            then { entry with score := (now.seconds : ℤ) } else entry).map Entry.member =
            set.entries.map Entry.member := by
          rw [List.map_map]
          apply List.map_congr_left
          intro entry _
          simp only [Function.comp_apply]
          split_ifs
          · rfl
          · rfl
        show (List.map Entry.member (List.map _ set.entries)).Nodup
        rw [hmembers]
        exact h.members
    · constructor
      · intro entry hentry
        rcases List.mem_append.mp hentry with hentry | hentry
        · exact h.times entry hentry
        · exact ⟨now, le_rfl, List.mem_singleton.mp hentry⟩
      · show (List.map Entry.member (set.entries ++ [_])).Nodup
        rw [List.map_append, List.nodup_append]
        refine ⟨h.members, List.nodup_singleton _, ?_⟩
        intro member hmember member' hmember' heq
        obtain ⟨entry, hentry, rfl⟩ := List.mem_map.mp hmember
        have hnow : member' = now.member := List.mem_singleton.mp hmember'
        exact hany (List.any_eq_true.mpr ⟨entry, hentry, decide_eq_true (heq.trans hnow)⟩)

/-- The same for every key. -/
def AllRecorded (now : Time) (db : Redis) : Prop := ∀ key, Recorded now (db key)

theorem allRecorded_empty (now : Time) : AllRecorded now fun _ => none :=
  fun _ => ⟨fun _ hentry => absurd hentry List.not_mem_nil, List.nodup_nil⟩

theorem AllRecorded.mono (h : AllRecorded now db) (hle : now.micros ≤ later.micros) :
    AllRecorded later db := fun key => (h key).mono hle

/-- One call. -/
theorem AllRecorded.isLimited (h : AllRecorded now db) (rules : List RateLimitRule) (ip : IPAddress) :
    AllRecorded now (isLimited rules ip now db).1 := by
  have hspec := isLimited_spec rules ip now db
  intro key
  have hlive : Recorded now (live now (db key)) := (h key).of_sublist (entries_live_sublist now _)
  by_cases hkey : key ∈ rules.map fun rule => redisKey rule ip
  · obtain ⟨rule, hrule, rfl⟩ := List.mem_map.mp hkey
    have hfresh : Recorded now (trimmed now db rule ip) :=
      (h (redisKey rule ip)).of_sublist (entries_fresh_sublist now rule.windowSeconds _)
    cases hlimited : (Limits.isLimited rules ip now db).2 with
    | true =>
      rcases hspec.refused hlimited rule hrule with hpost | hpost
      · rwa [hpost]
      · rwa [hpost]
    | false =>
      rw [hspec.admitted hlimited rule hrule]
      exact hfresh.zadd.of_sublist (entries_expire_sublist _ _ _)
  · rwa [hspec.frame key hkey]

/-! ## The bound -/

theorem Time.eq_of_micros_eq {t t' : Time} (h : t.micros = t'.micros) : t = t' := by
  have := t.lt
  have := t'.lt
  unfold Time.micros at h
  have hseconds : t.seconds = t'.seconds := by omega
  have hmicros : t.microseconds = t'.microseconds := by omega
  cases t
  cases t'
  simp_all

/-- The times of the entries of a window are different numbers of an interval. -/
theorem Recorded.zcard_fresh_le (h : Recorded now value) (window : ℤ) :
    zcard (fresh now window value) ≤ 1000000 * max window 0 := by
  have hlive : Recorded now (live now value) := h.of_sublist (entries_live_sublist now value)
  have hfresh : Recorded now (fresh now window value) :=
    h.of_sublist (entries_fresh_sublist now window value)
  have hscores : ∀ entry ∈ Value.entries (live now value), 0 ≤ entry.score := by
    intro entry hentry
    obtain ⟨t, -, rfl⟩ := hlive.times entry hentry
    exact Int.natCast_nonneg _
  have htimes : ∀ entry ∈ Value.entries (fresh now window value), ∃ t : Time,
      t.micros ≤ now.micros ∧ entry = t.entry ∧ (now.seconds : ℤ) - window < t.seconds := by
    intro entry hentry
    obtain ⟨t, ht, rfl⟩ := hfresh.times entry hentry
    rw [fresh, entries_zremrangebyscore hscores] at hentry
    exact ⟨t, ht, rfl, of_decide_eq_true (List.mem_filter.mp hentry).2⟩
  have : Nonempty Time := ⟨now⟩
  choose! t hbefore hentry hwithin using htimes
  have hcard : (Value.entries (fresh now window value)).toFinset.card ≤
      (Finset.Ico (((now.seconds : ℤ) - window + 1) * 1000000) ((now.seconds + 1) * 1000000)).card := by
    apply Finset.card_le_card_of_injOn fun entry => ((t entry).micros : ℤ)
    · intro entry hmem
      have hmem := List.mem_toFinset.mp hmem
      have := hbefore entry hmem
      have := hwithin entry hmem
      have := now.lt
      rw [Finset.mem_coe, Finset.mem_Ico]
      unfold Time.micros at *
      constructor
      · push_cast
        omega
      · push_cast
        omega
    · intro entry hmem entry' hmem' heq
      have htime := Time.eq_of_micros_eq (Int.ofNat_inj.mp heq)
      rw [hentry entry (List.mem_toFinset.mp hmem), htime, ← hentry entry' (List.mem_toFinset.mp hmem')]
  rw [List.toFinset_card_of_nodup hfresh.members.of_map, Int.card_Ico] at hcard
  rw [zcard_eq]
  omega

end Shortener.Limits
