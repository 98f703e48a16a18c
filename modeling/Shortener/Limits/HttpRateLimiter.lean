import Shortener.Common.Noninterference
import Shortener.Limits.Fresh

/-!
# Dropping duplicate rules

`HttpRateLimiter.GetApplicableRules` (`Shortener.FrontendShared/Middleware/HttpRateLimiter.cs`,
lines 36–46) sorts the rules that match the path by their limit, groups them by path key and
window, and keeps the first of each group.

* `sameLimit_getApplicableRules`: it keeps the tightest limit of each key.
* `getApplicableRules_limits_alike`: so the script answers as with all matching rules, now and in
  every call that follows.
-/

namespace Shortener.Limits

open Shortener.Common Shortener.DotNet

/-! ## The applicable rules -/

/-- The two tests of `MatchPath`, on the path of the request and the text of the rule. -/
structure PathTests where
  /-- `path.Equals(Path, StringComparison.InvariantCultureIgnoreCase)` -/
  equals : String → String → Bool
  /-- `Regex.IsMatch(path, PathRegex)` -/
  isMatch : String → String → Bool

/-- `MatchPath`. -/
def RateLimitRule.matchPath (tests : PathTests) (rule : RateLimitRule) (path : String) : Bool :=
  if rule.path ≠ "" then tests.equals path rule.path
  else if rule.pathRegex ≠ "" then tests.isMatch path rule.pathRegex
  else false

section

variable {α κ : Type} [DecidableEq κ]

/-- `GroupBy`: the groups in the order of their first elements. -/
def groupBy (key : α → κ) (source : List α) : List (List α) :=
  (source.map key).eraseDups.map fun k => source.filter fun a => key a = k

/-- `source.GroupBy(key).Select(x => x.First())`; no group is empty. -/
def firstOfEach (key : α → κ) (source : List α) : List α := (groupBy key source).filterMap List.head?

variable {key : α → κ} {source : List α} {a : α}

theorem mem_of_mem_firstOfEach (h : a ∈ firstOfEach key source) : a ∈ source := by
  obtain ⟨group, hgroup, hhead⟩ := List.mem_filterMap.mp h
  obtain ⟨k, -, rfl⟩ := List.mem_map.mp hgroup
  exact List.mem_of_mem_filter (List.mem_of_head? hhead)

/-- The first of a group stands before all of the group. -/
theorem exists_mem_firstOfEach {le : α → α → Prop} (hrefl : ∀ a, le a a)
    (hsorted : source.Pairwise le) (h : a ∈ source) :
    ∃ b ∈ firstOfEach key source, key b = key a ∧ le b a := by
  have hgroup : a ∈ source.filter fun b => key b = key a := List.mem_filter.mpr ⟨h, by simp⟩
  obtain ⟨b, group, heq⟩ := List.exists_cons_of_ne_nil (List.ne_nil_of_mem hgroup)
  have hkey : key b = key a := by
    have hb : b ∈ source.filter fun b => key b = key a := heq ▸ List.mem_cons_self
    exact of_decide_eq_true (List.mem_filter.mp hb).2
  refine ⟨b, ?_, hkey, ?_⟩
  · refine List.mem_filterMap.mpr ⟨b :: group, ?_, rfl⟩
    refine List.mem_map.mpr ⟨key a, ?_, heq⟩
    exact List.mem_eraseDups.mpr (List.mem_map_of_mem h)
  · have hpairwise := hsorted.filter fun b => decide (key b = key a)
    rw [heq] at hpairwise hgroup
    rcases List.mem_cons.mp hgroup with rfl | hmem
    · exact hrefl a
    · exact List.rel_of_pairwise_cons hpairwise hmem

end

/-- The rules that match the path, in configured order. -/
def matchingRules (tests : PathTests) (rules : List RateLimitRule) (path : String) :
    List RateLimitRule :=
  rules.filter fun rule => rule.matchPath tests path

/-- `GetApplicableRules`; `OrderBy` is stable. -/
def getApplicableRules (tests : PathTests) (rules : List RateLimitRule) (path : String) :
    List RateLimitRule :=
  firstOfEach (fun rule => (rule.pathKey, rule.windowSeconds))
    ((matchingRules tests rules path).mergeSort fun x y => x.maxRequests ≤ y.maxRequests)

variable {tests : PathTests} {rules : List RateLimitRule} {path : String}

theorem sameLimit_getApplicableRules (tests : PathTests) (rules : List RateLimitRule)
    (path : String) :
    SameLimit (getApplicableRules tests rules path) (matchingRules tests rules path) where
  mem := by
    intro rule hrule
    exact List.mem_mergeSort.mp (mem_of_mem_firstOfEach hrule)
  tightest := by
    intro rule hrule
    have hsorted : ((matchingRules tests rules path).mergeSort fun x y =>
        x.maxRequests ≤ y.maxRequests).Pairwise fun x y =>
          decide (x.maxRequests ≤ y.maxRequests) = true :=
      List.pairwise_mergeSort (by simp; omega) (by simp; omega) _
    obtain ⟨rule', hrule', hkey, hle⟩ : ∃ rule' ∈ getApplicableRules tests rules path,
        (rule'.pathKey, rule'.windowSeconds) = (rule.pathKey, rule.windowSeconds) ∧
          decide (rule'.maxRequests ≤ rule.maxRequests) = true :=
      exists_mem_firstOfEach (fun _ => decide_eq_true le_rfl) hsorted (List.mem_mergeSort.mpr hrule)
    obtain ⟨hpath, hwindow⟩ := Prod.mk.inj hkey
    exact ⟨rule', hrule', hpath, hwindow, of_decide_eq_true hle⟩

/-! ## The calls that follow -/

/-- A request, and whether either of two runs drops duplicate rules for it. -/
structure Request where
  path : String
  ip : IPAddress
  time : Time
  drops : Bool × Bool

/-- The script with the rules that a run applies. -/
def serve (tests : PathTests) (rules : List RateLimitRule) (drops : Request → Bool) (db : Redis)
    (request : Request) : Redis × Bool :=
  let applicableRules :=
    if drops request then getApplicableRules tests rules request.path
    else matchingRules tests rules request.path
  isLimited applicableRules request.ip request.time db

/-- The rules that a run applies have the limits of all matching rules. -/
theorem sameLimit_applicableRules (tests : PathTests) (rules : List RateLimitRule) (path : String)
    (drops : Bool) :
    SameLimit (if drops then getApplicableRules tests rules path else matchingRules tests rules path)
      (matchingRules tests rules path) := by
  split_ifs
  · exact sameLimit_getApplicableRules tests rules path
  · exact SameLimit.refl _

theorem unwinding_serve (tests : PathTests) (rules : List RateLimitRule) :
    Unwinding (serve tests rules fun request => request.drops.1)
      (serve tests rules fun request => request.drops.2) (fun request => request.time)
      (fun t t' => t.micros ≤ t'.micros) (fun _ => true) (AgreeOn Set.univ) := by
  have hanswer : ∀ (request : Request) (db db' : Redis), AgreeOn Set.univ request.time db db' →
      (serve tests rules (fun request => request.drops.1) db request).2 =
        (serve tests rules (fun request => request.drops.2) db' request).2 := by
    intro request db db' hagree
    -- both answer as with all matching rules
    have h1 := (sameLimit_applicableRules tests rules request.path request.drops.1).answer
      hagree request.ip
    have h2 := (sameLimit_applicableRules tests rules request.path request.drops.2).answer
      (AgreeOn.refl Set.univ request.time db') request.ip
    exact h1.trans h2.symm
  refine ⟨fun request db db' _ => hanswer request db db', ?_, fun _ _ _ _ h => by cases h⟩
  intro request db db' later _ hagree hlater
  refine hagree.isLimited ?_ (hanswer request db db' hagree) hlater
  intro key
  have h1 := (sameLimit_applicableRules tests rules request.path request.drops.1).mem_keys_iff
    request.ip key
  have h2 := (sameLimit_applicableRules tests rules request.path request.drops.2).mem_keys_iff
    request.ip key
  exact h1.trans h2.symm

/-- **Dropping duplicate rules does not change the limit.** -/
theorem getApplicableRules_limits_alike (tests : PathTests) (rules : List RateLimitRule)
    (path : String) (ip : IPAddress) (now : Time) (db : Redis) :
    let kept := isLimited (getApplicableRules tests rules path) ip now db
    let all := isLimited (matchingRules tests rules path) ip now db
    kept.2 = all.2 ∧
      (∀ rule ∈ matchingRules tests rules path,
        above (now.seconds - rule.windowSeconds) (kept.1 (redisKey rule ip)).entries =
          above (now.seconds - rule.windowSeconds) (all.1 (redisKey rule ip)).entries) ∧
      (∀ key ∉ (matchingRules tests rules path).map fun rule => redisKey rule ip,
        kept.1 key = all.1 key) ∧
      ∀ requests : List Request,
        (now :: requests.map fun request => request.time).Pairwise (fun t t' => t.micros ≤ t'.micros) →
          trace (serve tests rules fun request => request.drops.1) requests kept.1 =
            trace (serve tests rules fun request => request.drops.2) requests all.1 := by
  have hsame := sameLimit_getApplicableRules tests rules path
  have hagree := AgreeOn.refl Set.univ now db
  have hanswer := hsame.answer hagree ip
  refine ⟨hanswer, ?_, ?_, ?_⟩
  · intro rule hrule
    cases hlimited : (isLimited (getApplicableRules tests rules path) ip now db).2 with
    | true =>
      rw [above_of_refused hlimited, above_of_refused (hanswer ▸ hlimited)]
    | false =>
      have hkey : redisKey rule ip ∈
          (matchingRules tests rules path).map fun rule => redisKey rule ip :=
        List.mem_map_of_mem hrule
      rw [of_admitted hlimited ((hsame.mem_keys_iff ip _).mpr hkey),
        of_admitted (hanswer ▸ hlimited) hkey]
  · intro key hkey
    rw [(isLimited_spec _ ip now db).frame key (mt (hsame.mem_keys_iff ip key).mp hkey),
      (isLimited_spec _ ip now db).frame key hkey]
  · intro requests htimes
    obtain ⟨hlater, htimes⟩ := List.pairwise_cons.mp htimes
    refine (unwinding_serve tests rules).trace_eq htimes ?_
    intro request hrequest
    exact hagree.isLimited (hsame.mem_keys_iff ip) hanswer
      (hlater _ (List.mem_map_of_mem hrequest))

/-- Two limits for one key: the first run drops the looser one for the first request only. -/
theorem limits_alike_twoLimits :
    let tests : PathTests := ⟨fun path text => path = text, fun _ _ => true⟩
    let rules : List RateLimitRule := [⟨"", "^/*", 3600, 500⟩, ⟨"", "^/*", 3600, 1⟩]
    let ip : IPAddress := ⟨"127.0.0.1", by decide⟩
    let request : Request := ⟨"/urls", ip, ⟨101, 0, by decide⟩, (false, true)⟩
    trace (serve tests rules fun request => request.drops.1) [request]
        (isLimited (getApplicableRules tests rules "/urls") ip ⟨100, 7, by decide⟩ fun _ => none).1 =
      trace (serve tests rules fun request => request.drops.2) [request]
        (isLimited (matchingRules tests rules "/urls") ip ⟨100, 7, by decide⟩ fun _ => none).1 :=
  (getApplicableRules_limits_alike _ _ _ _ _ _).2.2.2 _ (by simp [Time.micros])

end Shortener.Limits
