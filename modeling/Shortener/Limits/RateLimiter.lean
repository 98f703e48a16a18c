import Shortener.DotNet.Integer
import Shortener.DotNet.Text
import Shortener.Limits.SortedSet

/-!
# The rate limiter

`RateLimiterService.IsLimited` (`Shortener.FrontendShared/Services/RateLimiterService.cs`) and
the script that it runs at Redis (`CacheService.cs`, lines 18–39). Redis runs a script at once,
and every run sees a later time.

* `windows_eq`: the rounds of the loops are the rules.
* `redisKey_inj`, `member_inj`: no two addresses share a key, and no two calls a member.
* `isLimited_spec`: what a call does to the keys of its address, and to no others.
-/

namespace Shortener.Limits

open Shortener.DotNet

/-! ## The script -/

/-- The fields of `RateLimitRule` that `IsLimited` reads. -/
structure RateLimitRule where
  path : String
  pathRegex : String
  windowSeconds : ℤ
  maxRequests : ℤ
  deriving DecidableEq, Repr

/-- `PathKey`. -/
def RateLimitRule.pathKey (rule : RateLimitRule) : String :=
  if rule.path ≠ "" then rule.path else rule.pathRegex

/-- The text of an IP address: digits, letters, points, colons, and `%` before a scope. -/
structure IPAddress where
  text : String
  brace_not_mem : '{' ∉ text.toList
  deriving DecidableEq

/-- The key of a rule and an address. -/
def redisKey (rule : RateLimitRule) (ip : IPAddress) : String :=
  rule.pathKey ++ ":\x7b" ++ ip.text ++ "\x7d:" ++ toString rule.windowSeconds

/-- The values of Redis by their keys. -/
abbrev Redis := String → Value

/-- What one round of a loop of the script reads from `KEYS` and `ARGV`. -/
structure Window where
  key : String
  window : ℤ
  maxRequests : ℤ
  deriving DecidableEq, Repr

/-- The rounds `i = 2, 4, .., num_windows * 2` of a loop: `KEYS[i/2]`, `ARGV[i]` and `ARGV[i+1]`,
    which count from 1. -/
def windows (keys : List String) (argv : List ℤ) : List Window :=
  (List.range' 2 (argv.getD 0 0).toNat 2).map fun i =>
    ⟨keys.getD (i / 2 - 1) "", argv.getD (i - 1) 0, argv.getD i 0⟩

/-- The first loop, and whether it has returned 1. -/
def checkWindows (now : Time) : List Window → Redis → Redis × Bool
  | [], db => (db, false)
  | w :: ws, db =>
    let trimTime := (now.seconds : ℤ) - w.window
    let db := Function.update db w.key (zremrangebyscore 0 trimTime (db w.key))
    if zcard (db w.key) ≥ w.maxRequests then (db, true) else checkWindows now ws db

/-- `current_time[1] .. current_time[2]`. -/
def Time.member (t : Time) : String := toString t.seconds ++ toString t.microseconds

/-- The body of the second loop. -/
def addRequest (now : Time) (db : Redis) (w : Window) : Redis :=
  let db := Function.update db w.key (zadd now.seconds now.member (db w.key))
  Function.update db w.key (expire now w.window (db w.key))

/-- `RateLimiterScript`, after Redis has dropped the keys that have expired. -/
def rateLimiterScript (now : Time) (keys : List String) (argv : List ℤ) (db : Redis) : Redis × ℤ :=
  match checkWindows now (windows keys argv) fun key => live now (db key) with
  | (db, true) => (db, 1)
  | (db, false) => ((windows keys argv).foldl (addRequest now) db, 0)

/-- `IsLimited`. -/
def isLimited (rules : List RateLimitRule) (ip : IPAddress) (now : Time) (db : Redis) : Redis × Bool :=
  let keys := rules.map fun rule => redisKey rule ip
  let argv := (rules.length : ℤ) :: rules.flatMap fun rule => [rule.windowSeconds, rule.maxRequests]
  let (db, result) := rateLimiterScript now keys argv db
  (db, result = 1)

/-! ## The rounds of the loops are the rules -/

variable {rules : List RateLimitRule} {rule rule' : RateLimitRule} {ip ip' : IPAddress} {now : Time}
  {db : Redis} {ws : List Window} {w : Window}

/-- What the script reads of a rule. -/
def RateLimitRule.toWindow (ip : IPAddress) (rule : RateLimitRule) : Window :=
  ⟨redisKey rule ip, rule.windowSeconds, rule.maxRequests⟩

/-- `ARGV` after its first value: two values for each rule. -/
theorem getElem?_argv (rules : List RateLimitRule) (k : ℕ) :
    (rules.flatMap fun rule => [rule.windowSeconds, rule.maxRequests])[2 * k]? =
        rules[k]?.map RateLimitRule.windowSeconds ∧
      (rules.flatMap fun rule => [rule.windowSeconds, rule.maxRequests])[2 * k + 1]? =
        rules[k]?.map RateLimitRule.maxRequests := by
  induction rules generalizing k with
  | nil => simp
  | cons rule rules ih =>
    cases k with
    | zero => simp
    | succ k =>
      have h := ih k
      simpa [Nat.mul_add, List.flatMap_cons] using h

theorem windows_eq (rules : List RateLimitRule) (ip : IPAddress) :
    windows (rules.map fun rule => redisKey rule ip)
        ((rules.length : ℤ) :: rules.flatMap fun rule => [rule.windowSeconds, rule.maxRequests]) =
      rules.map (RateLimitRule.toWindow ip) := by
  apply List.ext_getElem
  · simp [windows]
  · intro k h1 h2
    have hk : k < rules.length := by simpa using h2
    obtain ⟨hwindow, hmax⟩ := getElem?_argv rules k
    have hi : 2 + 2 * k = 2 * k + 1 + 1 := by omega
    have hkey : (2 * k + 1 + 1) / 2 - 1 = k := by omega
    simp only [windows, List.getElem_map, List.getElem_range', RateLimitRule.toWindow,
      List.getD_eq_getElem?_getD, hi, hkey, Nat.add_sub_cancel, List.getElem?_cons_succ, hwindow, hmax,
      List.getElem?_map, List.getElem?_eq_getElem hk, Option.map_some, Option.getD_some]

/-! ## Keys and members -/

/-- The key determines the address, and the rule up to its path key and window. -/
theorem redisKey_inj (h : redisKey rule ip = redisKey rule' ip') :
    ip = ip' ∧ rule.pathKey = rule'.pathKey ∧ rule.windowSeconds = rule'.windowSeconds := by
  -- read from the right: digits up to `}`, the address up to `{`
  have hbrace : ∀ n : ℤ, '}' ∉ ((toString n).toList.reverse ++ [':']) := by
    intro n hmem
    rcases List.mem_append.mp hmem with hmem | hmem
    · rcases isDigit_or_minus_of_mem_toString (List.mem_reverse.mp hmem) with hc | hc
      · exact absurd hc (by decide)
      · exact absurd hc (by decide)
    · exact absurd hmem (by decide)
  have hlist : ∀ (rule : RateLimitRule) (ip : IPAddress), (redisKey rule ip).toList.reverse =
      ((toString rule.windowSeconds).toList.reverse ++ [':']) ++ '}' ::
        (ip.text.toList.reverse ++ '{' :: (':' :: rule.pathKey.toList.reverse)) := by
    intro rule ip
    simp [redisKey]
  have hreverse := congrArg (fun key : String => key.toList.reverse) h
  simp only [hlist] at hreverse
  obtain ⟨hwindow, hrest⟩ := append_delimiter_inj (hbrace _) (hbrace _) hreverse
  obtain ⟨hip, hpath⟩ := append_delimiter_inj (by simpa using ip.brace_not_mem)
    (by simpa using ip'.brace_not_mem) hrest
  have hwindow' : toString rule.windowSeconds = toString rule'.windowSeconds :=
    String.toList_inj.mp (List.reverse_injective (List.append_cancel_right hwindow))
  have hip' : ip.text = ip'.text := String.toList_inj.mp (List.reverse_injective hip)
  have hpath' : rule.pathKey = rule'.pathKey :=
    String.toList_inj.mp (List.reverse_injective (List.cons.inj hpath).2)
  refine ⟨?_, hpath', ?_⟩
  · cases ip
    cases ip'
    simpa using hip'
  · have hparse := tryParse_toString rule.windowSeconds
    rw [hwindow', tryParse_toString] at hparse
    exact (Option.some.inj hparse).symm

theorem toString_nat_inj {m n : ℕ} (h : toString m = toString n) : m = n := by
  have hparse := tryParse_toString m
  have heq : toString (m : ℤ) = toString (n : ℤ) := h
  rw [heq, tryParse_toString] at hparse
  exact_mod_cast (Option.some.inj hparse).symm

/-- With seconds of one length the member determines the time. -/
theorem member_inj {t t' : Time} (hlength : (toString t.seconds).length = (toString t'.seconds).length)
    (h : t.member = t'.member) : t = t' := by
  have hlist := congrArg String.toList h
  simp only [Time.member, String.toList_append] at hlist
  obtain ⟨hseconds, hmicros⟩ :=
    List.append_inj hlist (by simpa only [String.length_toList] using hlength)
  have h1 := toString_nat_inj (String.toList_inj.mp hseconds)
  have h2 := toString_nat_inj (String.toList_inj.mp hmicros)
  cases t
  cases t'
  simp_all

/-! ## What the loops do -/

/-- Windows with one key have one length. Several rules may have the same key. -/
def Consistent (ws : List Window) : Prop :=
  ∀ w ∈ ws, ∀ w' ∈ ws, w'.key = w.key → w'.window = w.window

theorem Consistent.of_cons (h : Consistent (w :: ws)) : Consistent ws :=
  fun w hw w' hw' => h w (List.mem_cons_of_mem _ hw) w' (List.mem_cons_of_mem _ hw')

/-- The last round of a window's key is among the later rounds, or it is the first round. -/
theorem Consistent.last_round {w' : Window} (hws : Consistent (w :: ws)) (hw' : w' ∈ w :: ws) :
    (∃ w'' ∈ ws, w''.key = w'.key ∧ w''.window = w'.window) ∨
      (w' = w ∧ w'.key ∉ ws.map Window.key) := by
  by_cases hkey : w'.key ∈ ws.map Window.key
  · obtain ⟨w'', hw'', heq⟩ := List.mem_map.mp hkey
    exact .inl ⟨w'', hw'', heq, hws w' hw' w'' (List.mem_cons_of_mem _ hw'') heq⟩
  · rcases List.mem_cons.mp hw' with rfl | hmem
    · exact .inr ⟨rfl, hkey⟩
    · exact absurd (List.mem_map_of_mem hmem) hkey

theorem consistent_toWindow (rules : List RateLimitRule) (ip : IPAddress) :
    Consistent (rules.map (RateLimitRule.toWindow ip)) := by
  intro w hw w' hw' hkey
  obtain ⟨rule, -, rfl⟩ := List.mem_map.mp hw
  obtain ⟨rule', -, rfl⟩ := List.mem_map.mp hw'
  exact (redisKey_inj hkey).2.2

/-- The value of a window after its round of the first loop. -/
def trim (now : Time) (db : Redis) (w : Window) : Value :=
  zremrangebyscore 0 (now.seconds - w.window) (db w.key)

/-- After the round of a window, the rounds that follow trim as they would without it. -/
theorem trim_update {w' : Window} (now : Time) (db : Redis) (h : w'.key = w.key → w'.window = w.window) :
    trim now (Function.update db w.key (trim now db w)) w' = trim now db w' := by
  by_cases hkey : w'.key = w.key
  · simp only [trim, hkey, h hkey, Function.update_self]
    exact zremrangebyscore_zremrangebyscore le_rfl _
  · simp only [trim, Function.update_of_ne hkey]

theorem trim_congr {w' : Window} (hkey : w'.key = w.key) (hwindow : w'.window = w.window) :
    trim now db w' = trim now db w := by
  simp only [trim, hkey, hwindow]

/-- What the first loop does. -/
structure CheckSpec (now : Time) (ws : List Window) (db db' : Redis) (limited : Bool) : Prop where
  frame : ∀ key ∉ ws.map Window.key, db' key = db key
  trimmed : ∀ w ∈ ws, db' w.key = db w.key ∨ db' w.key = trim now db w
  limited_iff : limited = true ↔ ∃ w ∈ ws, w.maxRequests ≤ zcard (trim now db w)
  passed : limited = false → ∀ w ∈ ws, db' w.key = trim now db w

theorem checkWindows_spec (now : Time) (hws : Consistent ws) (db : Redis) :
    CheckSpec now ws db (checkWindows now ws db).1 (checkWindows now ws db).2 := by
  induction ws generalizing db with
  | nil =>
    exact ⟨fun _ _ => rfl, fun _ hw => absurd hw List.not_mem_nil, by simp [checkWindows],
      fun _ _ hw => absurd hw List.not_mem_nil⟩
  | cons w ws ih =>
    simp only [checkWindows, Function.update_self]
    split_ifs with hfull
    · refine ⟨?_, ?_, iff_of_true rfl ⟨w, List.mem_cons_self, hfull⟩, by simp⟩
      · intro key hkey
        exact Function.update_of_ne (List.ne_of_not_mem_cons hkey) _ _
      · intro w' hw'
        by_cases hkey : w'.key = w.key
        · rw [trim_congr hkey (hws w List.mem_cons_self w' hw' hkey), hkey]
          exact .inr (Function.update_self _ _ _)
        · exact .inl (Function.update_of_ne hkey _ _)
    · -- the rounds that follow trim other sets, or trim this one again
      have hspec := ih hws.of_cons (Function.update db w.key (trim now db w))
      have htrim : ∀ w' ∈ w :: ws,
          trim now (Function.update db w.key (trim now db w)) w' = trim now db w' :=
        fun w' hw' => trim_update now db (hws w List.mem_cons_self w' hw')
      have hself : w.key ∉ ws.map Window.key →
          (checkWindows now ws (Function.update db w.key (trim now db w))).1 w.key =
            trim now db w :=
        fun hkey => (hspec.frame w.key hkey).trans (Function.update_self _ _ _)
      refine ⟨?_, ?_, ?_, ?_⟩
      · intro key hkey
        have hkey' : key ∉ ws.map Window.key := List.not_mem_of_not_mem_cons hkey
        have hne : key ≠ w.key := List.ne_of_not_mem_cons hkey
        exact (hspec.frame key hkey').trans (Function.update_of_ne hne _ _)
      · intro w' hw'
        rcases hws.last_round hw' with ⟨w'', hw'', hkey, hwindow⟩ | ⟨rfl, hkey⟩
        · rw [← hkey, ← trim_congr hkey hwindow]
          rcases hspec.trimmed w'' hw'' with h | h
          · by_cases hfirst : w''.key = w.key
            · have hwindow' := hws w List.mem_cons_self w'' (List.mem_cons_of_mem _ hw'') hfirst
              refine .inr (h.trans ?_)
              rw [trim_congr hfirst hwindow', hfirst, Function.update_self]
            · exact .inl (h.trans (Function.update_of_ne hfirst _ _))
          · exact .inr (h.trans (htrim w'' (List.mem_cons_of_mem _ hw'')))
        · exact .inr (hself hkey)
      · refine hspec.limited_iff.trans ?_
        constructor
        · intro h
          obtain ⟨w', hw', hmax⟩ := h
          have hw' := List.mem_cons_of_mem w hw'
          exact ⟨w', hw', by rwa [htrim w' hw'] at hmax⟩
        · intro h
          obtain ⟨w', hw', hmax⟩ := h
          rcases List.mem_cons.mp hw' with rfl | hmem
          · exact absurd hmax hfull
          · exact ⟨w', hmem, by rwa [htrim w' hw']⟩
      · intro hresult w' hw'
        rcases hws.last_round hw' with ⟨w'', hw'', hkey, hwindow⟩ | ⟨rfl, hkey⟩
        · rw [← hkey, ← trim_congr hkey hwindow]
          exact (hspec.passed hresult w'' hw'').trans (htrim w'' (List.mem_cons_of_mem _ hw''))
        · exact hself hkey

/-- The value of a window after its round of the second loop. -/
def added (now : Time) (db : Redis) (w : Window) : Value :=
  expire now w.window (zadd now.seconds now.member (db w.key))

theorem addRequest_self (db : Redis) (w : Window) : addRequest now db w w.key = added now db w := by
  simp only [addRequest, added, Function.update_self]

theorem addRequest_of_ne (db : Redis) (w : Window) {key : String} (h : key ≠ w.key) :
    addRequest now db w key = db key := by
  simp only [addRequest, Function.update_of_ne h]

theorem added_congr {w' : Window} (hkey : w'.key = w.key) (hwindow : w'.window = w.window) :
    added now db w' = added now db w := by
  simp only [added, hkey, hwindow]

/-- After the round of a window, a further round adds as it would without it. -/
theorem added_addRequest {w' : Window} (now : Time) (db : Redis)
    (h : w'.key = w.key → w'.window = w.window) :
    added now (addRequest now db w) w' = added now db w' := by
  by_cases hkey : w'.key = w.key
  · simp only [added, hkey, h hkey, addRequest_self]
    exact expire_zadd_idem _ _ _ _ _
  · simp only [added, addRequest_of_ne db w hkey]

theorem foldl_addRequest (now : Time) (hws : Consistent ws) (db : Redis) :
    (∀ key ∉ ws.map Window.key, ws.foldl (addRequest now) db key = db key) ∧
      ∀ w ∈ ws, ws.foldl (addRequest now) db w.key = added now db w := by
  induction ws generalizing db with
  | nil => exact ⟨fun _ _ => rfl, fun _ hw => absurd hw List.not_mem_nil⟩
  | cons w ws ih =>
    obtain ⟨hframe, hadded⟩ := ih hws.of_cons (addRequest now db w)
    constructor
    · intro key hkey
      rw [List.foldl_cons, hframe key (List.not_mem_of_not_mem_cons hkey)]
      exact addRequest_of_ne db w (List.ne_of_not_mem_cons hkey)
    · intro w' hw'
      rw [List.foldl_cons]
      rcases hws.last_round hw' with ⟨w'', hw'', hkey, hwindow⟩ | ⟨rfl, hkey⟩
      · have hmem := List.mem_cons_of_mem w hw''
        rw [← hkey, hadded w'' hw'', added_addRequest now db (hws w List.mem_cons_self w'' hmem),
          added_congr hkey hwindow]
      · rw [hframe w'.key hkey, addRequest_self]

/-! ## One call -/

/-- The value of a key that is left at time `now`. -/
def liveDb (now : Time) (db : Redis) : Redis := fun key => live now (db key)

/-- The value of the rule's key after its round of the first loop. -/
def trimmed (now : Time) (db : Redis) (rule : RateLimitRule) (ip : IPAddress) : Value :=
  trim now (liveDb now db) (rule.toWindow ip)

theorem isLimited_eq (rules : List RateLimitRule) (ip : IPAddress) (now : Time) (db : Redis) :
    isLimited rules ip now db =
      if (checkWindows now (rules.map (RateLimitRule.toWindow ip)) (liveDb now db)).2 then
        ((checkWindows now (rules.map (RateLimitRule.toWindow ip)) (liveDb now db)).1, true)
      else ((rules.map (RateLimitRule.toWindow ip)).foldl (addRequest now)
        (checkWindows now (rules.map (RateLimitRule.toWindow ip)) (liveDb now db)).1, false) := by
  simp only [isLimited, rateLimiterScript, windows_eq]
  unfold liveDb
  generalize checkWindows now (rules.map (RateLimitRule.toWindow ip))
    (fun key => live now (db key)) = result
  obtain ⟨db', limited⟩ := result
  cases limited <;> rfl

theorem keys_toWindow (rules : List RateLimitRule) (ip : IPAddress) :
    (rules.map (RateLimitRule.toWindow ip)).map Window.key =
      rules.map fun rule => redisKey rule ip := by
  rw [List.map_map]
  rfl

/-- What a call does. -/
structure CallSpec (rules : List RateLimitRule) (ip : IPAddress) (now : Time) (db db' : Redis)
    (limited : Bool) : Prop where
  frame : ∀ key ∉ rules.map (fun rule => redisKey rule ip), db' key = live now (db key)
  limited_iff : limited = true ↔ ∃ rule ∈ rules, rule.maxRequests ≤ zcard (trimmed now db rule ip)
  refused : limited = true → ∀ rule ∈ rules, db' (redisKey rule ip) = live now (db (redisKey rule ip)) ∨
    db' (redisKey rule ip) = trimmed now db rule ip
  admitted : limited = false → ∀ rule ∈ rules, db' (redisKey rule ip) =
    expire now rule.windowSeconds (zadd now.seconds now.member (trimmed now db rule ip))

theorem isLimited_spec (rules : List RateLimitRule) (ip : IPAddress) (now : Time) (db : Redis) :
    CallSpec rules ip now db (isLimited rules ip now db).1 (isLimited rules ip now db).2 := by
  have hws := consistent_toWindow rules ip
  have hcheck := checkWindows_spec now hws (liveDb now db)
  obtain ⟨haddFrame, hadded⟩ := foldl_addRequest now hws
    (checkWindows now (rules.map (RateLimitRule.toWindow ip)) (liveDb now db)).1
  rw [isLimited_eq]
  rw [keys_toWindow] at haddFrame
  have hframe := hcheck.frame
  rw [keys_toWindow] at hframe
  have hlimited := hcheck.limited_iff
  simp only [List.mem_map, exists_exists_and_eq_and] at hlimited
  cases hresult : (checkWindows now (rules.map (RateLimitRule.toWindow ip)) (liveDb now db)).2 with
  | true =>
    refine ⟨hframe, ?_, ?_, by simp⟩
    · rw [hresult] at hlimited
      exact hlimited
    · intro _ rule hrule
      exact hcheck.trimmed _ (List.mem_map_of_mem hrule)
  | false =>
    refine ⟨?_, ?_, by simp, ?_⟩
    · intro key hkey
      exact (haddFrame key hkey).trans (hframe key hkey)
    · rw [hresult] at hlimited
      exact hlimited
    · intro _ rule hrule
      have hpassed := hcheck.passed hresult _ (List.mem_map_of_mem hrule)
      refine (hadded _ (List.mem_map_of_mem hrule)).trans ?_
      rw [added, hpassed]
      rfl

end Shortener.Limits
