import Shortener.Codec.ShortId
import Shortener.Stats.Repository
import Shortener.Stats.ViewStats

/-!
# The statistics reader

`UrlService.Convert` and its helpers (`Shortener.GrpcBackend/Services/UrlService.cs`,
lines 396–599). It adds up the rows of a URL in four windows. The names in a row's
JSONB objects are distributed over the platforms, and over the browsers, one after
the other: each takes the names it recognizes out of a copy of the object, and `Other`
takes the rest.

* `convert_eq_ret_iff`: what `Convert` returns, window by window.
* `takeEntries_returns_iff`: when taking names out of an object throws.
* `views_addVisits`, `ios_mem_addVisits`: the view count and the platforms of a window.
-/

namespace Shortener.Stats

open Shortener.DotNet Shortener.Codec

/-- The fields of `Shortener.GrpcBackend/Data/Url.cs` that the service reads. -/
structure Url where
  id : ℤ
  destinationUrl : String
  userId : ℤ
  totalViews : ℤ
  visits : List Visit
  updatedAt : ℤ

/-! ## Taking names out of an object -/

/-- The body of the loops of `AddPlatforms` and `AddBrowser`. `select` gives the name an
    entry is taken under, or nothing if it stays. -/
def takeEntry (select : String → Exec (Option String))
    (dicts : Dictionary String ℤ × Dictionary String ℤ) (entry : Σ _ : String, ℤ) :
    Exec (Dictionary String ℤ × Dictionary String ℤ) := do
  match ← select entry.1 with
  | none => return dicts
  | some name => return (← dicts.1.add name entry.2, dicts.2.erase entry.1)

/-- The loop, which runs over a copy of `entries`: what it takes, and what stays. -/
def takeEntries (select : String → Exec (Option String)) (entries : Dictionary String ℤ) :
    Exec (Dictionary String ℤ × Dictionary String ℤ) :=
  entries.entries.foldlM (takeEntry select) (∅, entries)

/-- `browserVersion[..dashIndex]` and `browserVersion[(dashIndex + 1)..]`. -/
def splitAtDash (browserVersion : String) : Exec (String × String) :=
  match browserVersion.toList.idxOf? '-' with
  | some dashIndex =>
    .ret (String.ofList (browserVersion.toList.take dashIndex),
      String.ofList (browserVersion.toList.drop (dashIndex + 1)))
  | none => .throw (.argumentOutOfRange "length" "Length cannot be less than zero.")

/-- The condition in the loop of `AddPlatforms` (lines 512–518). -/
def takenVariant (isPlatform : Option (String → Bool)) (variant : String) : Option String :=
  if isPlatform.elim true (· variant) then some variant else none

/-- What `takenVariant` says; it never throws. -/
def selectVariant (isPlatform : Option (String → Bool)) (variant : String) : Exec (Option String) :=
  .ret (takenVariant isPlatform variant)

/-- The conditions in the loop of `AddBrowser` (lines 555–566). -/
def selectVersion (browserName : Option String) (browserVersion : String) :
    Exec (Option String) := do
  let (browser, version) ← splitAtDash browserVersion
  return if browserName.elim true (browser = ·) then some version else none

section

variable {select : String → Exec (Option String)} {sel : String → Option String}
  {es : List (Σ _ : String, ℤ)} {dicts dicts' : Dictionary String ℤ × Dictionary String ℤ}
  {entry : Σ _ : String, ℤ}

theorem takeEntry_none (h : select entry.1 = .ret none) :
    takeEntry select dicts entry = .ret dicts := by
  rw [takeEntry, h]
  rfl

theorem takeEntry_some {name : String} (h : select entry.1 = .ret (some name)) :
    takeEntry select dicts entry = .ret dicts' ↔
      name ∉ dicts.1 ∧ dicts' = (dicts.1.insert name entry.2, dicts.2.erase entry.1) := by
  rw [takeEntry, h, Exec.ret_bind]
  simp only [Exec.bind_eq_ret_iff, Dictionary.add_eq_ret_iff, Exec.pure_eq, Exec.ret.injEq]
  constructor
  · rintro ⟨d, ⟨hnot, rfl⟩, rfl⟩
    exact ⟨hnot, rfl⟩
  · rintro ⟨hnot, rfl⟩
    exact ⟨_, ⟨hnot, rfl⟩, rfl⟩

/-- A loop over `es` ends if it takes each name at most once, and none that is taken. -/
theorem takeEntry_loop_returns_iff (hsel : ∀ entry ∈ es, select entry.1 = .ret (sel entry.1))
    (dicts : Dictionary String ℤ × Dictionary String ℤ) :
    (es.foldlM (takeEntry select) dicts).Returns ↔
      (es.filterMap fun entry => sel entry.1).Nodup ∧
        ∀ name ∈ es.filterMap fun entry => sel entry.1, name ∉ dicts.1 := by
  induction es generalizing dicts with
  | nil => simp
  | cons entry es ih =>
    obtain ⟨h, hes⟩ := List.forall_mem_cons.mp hsel
    rw [List.foldlM_cons, Exec.returns_bind]
    cases hname : sel entry.1 with
    | none =>
      rw [hname] at h
      simp only [takeEntry_none h, Exec.ret.injEq, exists_eq_left', ih hes, List.filterMap_cons,
        hname]
    | some name =>
      rw [hname] at h
      simp only [takeEntry_some h, List.filterMap_cons, hname, List.nodup_cons,
        List.forall_mem_cons, and_assoc, exists_and_left, exists_eq_left, ih hes, AList.mem_insert,
        not_or]
      constructor
      · rintro ⟨hmem, hnodup, hall⟩
        exact ⟨fun h => (hall name h).1 rfl, hnodup, hmem, fun n hn => (hall n hn).2⟩
      · rintro ⟨hnot, hnodup, hmem, hall⟩
        exact ⟨hmem, hnodup, fun n hn => ⟨fun heq => hnot (heq ▸ hn), hall n hn⟩⟩

theorem takeEntry_loop_mem (hsel : ∀ entry ∈ es, select entry.1 = .ret (sel entry.1))
    (h : es.foldlM (takeEntry select) dicts = .ret dicts') (key : String) :
    key ∈ dicts'.2 ↔ key ∈ dicts.2 ∧ (key ∈ es.map Sigma.fst → sel key = none) := by
  induction es generalizing dicts with
  | nil =>
    obtain rfl := Exec.ret.inj h
    simp
  | cons entry es ih =>
    obtain ⟨hentry, hes⟩ := List.forall_mem_cons.mp hsel
    obtain ⟨dicts₁, hstep, hloop⟩ := Exec.foldlM_cons_eq_ret_iff.mp h
    rw [ih hes hloop, List.map_cons, List.mem_cons]
    cases hname : sel entry.1 with
    | none =>
      rw [hname] at hentry
      obtain rfl := Exec.ret.inj ((takeEntry_none hentry).symm.trans hstep)
      refine and_congr_right fun _ => ⟨?_, fun h hmem => h (.inr hmem)⟩
      rintro h (rfl | hmem)
      · exact hname
      · exact h hmem
    | some name =>
      rw [hname] at hentry
      obtain ⟨-, rfl⟩ := (takeEntry_some hentry).mp hstep
      rw [AList.mem_erase]
      constructor
      · rintro ⟨⟨hne, hmem⟩, h⟩
        exact ⟨hmem, fun hor => h (hor.resolve_left hne)⟩
      · rintro ⟨hmem, h⟩
        refine ⟨⟨fun heq => ?_, hmem⟩, fun hin => h (.inr hin)⟩
        have hnone := h (.inl heq)
        rw [heq, hname] at hnone
        cases hnone

variable {entries taken entries' : Dictionary String ℤ}

/-- The names that are taken are distinct exactly if no two keys are taken under one. -/
theorem nodup_filterMap_iff {keys : List String} (h : keys.Nodup) :
    (keys.filterMap sel).Nodup ↔
      ∀ key ∈ keys, ∀ key' ∈ keys, ∀ name, sel key = some name → sel key' = some name →
        key = key' := by
  rw [List.nodup_iff_pairwise_ne, List.pairwise_filterMap]
  constructor
  · intro hp key hkey key' hkey' name hname hname'
    by_contra hne
    have hsymm : Std.Symm fun a a' => ∀ b, sel a = some b → ∀ b', sel a' = some b' → b ≠ b' :=
      ⟨fun _ _ hr b hb b' hb' => (hr b' hb' b hb).symm⟩
    exact hp.forall hkey hkey' hne name hname name hname' rfl
  · intro hinj
    apply h.pairwise_of_forall_ne
    intro key hkey key' hkey' hne name hname name' hname' heq
    exact hne (hinj key hkey key' hkey' name hname (heq ▸ hname'))

/-- Taking throws exactly when two keys are to be taken under one name. -/
theorem takeEntries_returns_iff (hsel : ∀ key ∈ entries, select key = .ret (sel key)) :
    (takeEntries select entries).Returns ↔
      ∀ key ∈ entries, ∀ key' ∈ entries, ∀ name, sel key = some name → sel key' = some name →
        key = key' := by
  have hsel' : ∀ entry ∈ entries.entries, select entry.1 = .ret (sel entry.1) :=
    fun entry h => hsel _ (AList.mem_keys.mpr (List.mem_keys_of_mem h))
  rw [takeEntries, takeEntry_loop_returns_iff hsel']
  simp only [AList.notMem_empty, not_false_eq_true, implies_true, and_true]
  have hnames : entries.entries.filterMap (fun entry => sel entry.1) = entries.keys.filterMap sel := by
    rw [AList.keys, List.keys, List.filterMap_map]
    rfl
  simp only [hnames, nodup_filterMap_iff entries.keys_nodup, AList.mem_keys]

/-- What stays: the entries that are not selected. -/
theorem mem_takeEntries (hsel : ∀ key ∈ entries, select key = .ret (sel key))
    (h : takeEntries select entries = .ret (taken, entries')) (key : String) :
    key ∈ entries' ↔ key ∈ entries ∧ sel key = none := by
  have hsel' : ∀ entry ∈ entries.entries, select entry.1 = .ret (sel entry.1) :=
    fun entry h => hsel _ (AList.mem_keys.mpr (List.mem_keys_of_mem h))
  rw [takeEntry_loop_mem hsel' h key]
  exact and_congr_right fun hmem => ⟨fun h => h (AList.mem_keys.mp hmem), fun h _ => h⟩

end

/-! ## One row -/

/-- `AddTypes`, which passes `BrowserType` for all three types. -/
def addTypes (stats : ViewStats) (visit : Visit) : ViewStats :=
  let stats := if visit.browserType > 0 then stats.addType .browser visit.browserType else stats
  let stats := if visit.robotType > 0 then stats.addType .robot visit.browserType else stats
  if visit.unknownType > 0 then stats.addType .unknown visit.browserType else stats

/-- `IsWindows`. -/
def isWindows (env : Globalization) (variant : String) : Bool :=
  env.startsWith variant "Windows " || ["Unknown Windows OS", "HP-UX"].contains variant

/-- `IsLinux`. -/
def isLinux (variant : String) : Bool :=
  ["FreeBSD", "Macintosh", "Linux", "Debian", "GNU/Linux"].contains variant

/-- `IsMacOs`. -/
def isMacOs (variant : String) : Bool :=
  ["Mac OS X", "Power PC Mac"].contains variant

/-- `AddPlatforms` for one platform (lines 498–526). -/
def addPlatformVariants (type : PlatformType) (platformViews : ℤ)
    (isPlatform : Option (String → Bool)) (stats : ViewStats) (platforms : Dictionary String ℤ) :
    Exec (ViewStats × Dictionary String ℤ) :=
  if platformViews = 0 then .ret (stats, platforms)
  else do
    let (variantsToAdd, platforms) ← takeEntries (selectVariant isPlatform) platforms
    return (stats.addPlatform type platformViews variantsToAdd, platforms)

/-- `AddPlatforms` (lines 467–496). -/
def addPlatforms (env : Globalization) (stats : ViewStats) (visit : Visit) : Exec ViewStats := do
  let platforms := visit.platforms
  let (stats, platforms) ← addPlatformVariants .windows visit.windows (isWindows env) stats platforms
  let (stats, platforms) ← addPlatformVariants .linux visit.linux isLinux stats platforms
  let stats := stats.addPlatform .ios visit.ios ∅
  let (stats, platforms) ← addPlatformVariants .macOs visit.macOs isMacOs stats platforms
  let stats := stats.addPlatform .android visit.android ∅
  let (stats, _) ← addPlatformVariants .other visit.otherPlatform none stats platforms
  return stats

/-- `AddBrowser` (lines 540–572). -/
def addBrowser (type : BrowserType) (browserViews : ℤ) (browserName : Option String)
    (stats : ViewStats) (browsers : Dictionary String ℤ) :
    Exec (ViewStats × Dictionary String ℤ) :=
  if browserViews = 0 then .ret (stats, browsers)
  else do
    let (versions, browsers) ← takeEntries (selectVersion browserName) browsers
    return (stats.addBrowser type browserViews versions, browsers)

/-- The calls of `AddBrowsers` before the last one. -/
def Visit.families (visit : Visit) : List (BrowserType × ℤ × String) :=
  [(.chrome, visit.chrome, "Chrome"), (.edge, visit.edge, "Edge"),
    (.firefox, visit.firefox, "Firefox"),
    (.internetExplorer, visit.internetExplorer, "Internet Explorer"),
    (.opera, visit.opera, "Opera"), (.safari, visit.safari, "Safari")]

/-- `AddBrowsers` (lines 528–538). -/
def addBrowsers (stats : ViewStats) (visit : Visit) : Exec ViewStats := do
  let (stats, browsers) ← visit.families.foldlM (fun (stats, browsers) (type, views, name) =>
    addBrowser type views (some name) stats browsers) (stats, visit.browsers)
  let (stats, _) ← addBrowser .other visit.otherBrowser none stats browsers
  return stats

/-- `AddMobileDeviceTypes`. -/
def addMobileDeviceTypes (stats : ViewStats) (visit : Visit) : ViewStats :=
  visit.mobileDeviceTypes.entries.foldl
    (fun stats entry => stats.addMobileDeviceType entry.1 entry.2) stats

/-- `AddCountries`. -/
def addCountries (stats : ViewStats) (visit : Visit) : ViewStats :=
  visit.countries.entries.foldl (fun stats entry => stats.addCountry entry.1 entry.2) stats

/-- `AddReferrers`. -/
def addReferrers (stats : ViewStats) (visit : Visit) : ViewStats :=
  visit.referrers.entries.foldl (fun stats entry => stats.addReferrer entry.1 entry.2) stats

/-- `AddVisit` (lines 437–447). -/
def addVisit (env : Globalization) (stats : ViewStats) (visit : Visit) : Exec ViewStats := do
  let stats := addTypes stats visit
  let stats ← addPlatforms env stats visit
  let stats ← addBrowsers stats visit
  let stats := addMobileDeviceTypes stats visit
  let stats := addCountries stats visit
  let stats := addReferrers stats visit
  return { stats with views := toInt32 (stats.views + visit.total) }

/-! ## All rows -/

/-- `Duration.FromDays`. -/
def days (n : ℤ) : ℤ := n * 24 * hour

/-- `now - visit.CreatedAt <= window`. -/
def Visit.IsWithin (window : ℤ) (now : ℤ) (visit : Visit) : Prop :=
  now - visit.createdAt ≤ window

instance (window : ℤ) (now : ℤ) : DecidablePred (Visit.IsWithin window now) :=
  fun visit => inferInstanceAs (Decidable (now - visit.createdAt ≤ window))

/-- The four `ViewStats` of `Convert`. -/
structure Windows where
  lastDay : ViewStats
  lastWeek : ViewStats
  lastMonth : ViewStats
  allTime : ViewStats

/-- `AddVisit` if the row is in the window. -/
def addVisitWithin (env : Globalization) (window : ℤ) (now : ℤ) (stats : ViewStats)
    (visit : Visit) : Exec ViewStats :=
  if visit.IsWithin window now then addVisit env stats visit else .ret stats

/-- The body of the loop of `Convert` (lines 404–422). -/
def addToWindows (env : Globalization) (now : ℤ) (stats : Windows) (visit : Visit) :
    Exec Windows := do
  let lastDay ← addVisitWithin env (days 1) now stats.lastDay visit
  let lastWeek ← addVisitWithin env (days 7) now stats.lastWeek visit
  let lastMonth ← addVisitWithin env (days 30) now stats.lastMonth visit
  let allTime ← addVisit env stats.allTime visit
  return ⟨lastDay, lastWeek, lastMonth, allTime⟩

/-- `Convert` (lines 396–435). -/
def convert (env : Globalization) (shardId : ℤ) (now : ℤ) (url : Url) : Exec UrlStats := do
  let stats ← url.visits.foldlM (addToWindows env now) ⟨.empty, .empty, .empty, .empty⟩
  let shortId ← ShortId.toString ⟨shardId, url.id⟩
  return {
    shortId := shortId
    destinationUrl := url.destinationUrl
    totalViews := url.totalViews
    lastDay := stats.lastDay
    lastWeek := stats.lastWeek
    lastMonth := stats.lastMonth
    allTime := stats.allTime }

/-! ## What `Convert` returns -/

/-- `AddVisit` for all of `rows`. -/
def addVisits (env : Globalization) (rows : List Visit) : Exec ViewStats :=
  rows.foldlM (addVisit env) .empty

theorem foldlM_addVisitWithin (env : Globalization) (window : ℤ) (now : ℤ)
    (rows : List Visit) (stats : ViewStats) :
    rows.foldlM (addVisitWithin env window now) stats =
      (rows.filter fun visit => visit.IsWithin window now).foldlM (addVisit env) stats := by
  induction rows generalizing stats with
  | nil => rfl
  | cons visit rows ih =>
    rw [List.foldlM_cons, addVisitWithin]
    by_cases h : visit.IsWithin window now
    · rw [if_pos h, List.filter_cons_of_pos (by simpa using h), List.foldlM_cons]
      simp only [ih]
    · rw [if_neg h, List.filter_cons_of_neg (by simpa using h), Exec.ret_bind, ih]

/-- The four windows are accumulated independently. -/
theorem foldlM_addToWindows (env : Globalization) (now : ℤ) (rows : List Visit)
    (stats stats' : Windows) :
    rows.foldlM (addToWindows env now) stats = .ret stats' ↔
      rows.foldlM (addVisitWithin env (days 1) now) stats.lastDay = .ret stats'.lastDay ∧
      rows.foldlM (addVisitWithin env (days 7) now) stats.lastWeek = .ret stats'.lastWeek ∧
      rows.foldlM (addVisitWithin env (days 30) now) stats.lastMonth = .ret stats'.lastMonth ∧
      rows.foldlM (addVisit env) stats.allTime = .ret stats'.allTime := by
  induction rows generalizing stats with
  | nil =>
    obtain ⟨a, b, c, d⟩ := stats
    obtain ⟨a', b', c', d'⟩ := stats'
    simp
  | cons visit rows ih =>
    simp only [Exec.foldlM_cons_eq_ret_iff, ih, addToWindows, Exec.bind_eq_ret_iff, Exec.pure_eq,
      Exec.ret.injEq]
    constructor
    · rintro ⟨_, ⟨a, ha, b, hb, c, hc, d, hd, rfl⟩, ha', hb', hc', hd'⟩
      exact ⟨⟨a, ha, ha'⟩, ⟨b, hb, hb'⟩, ⟨c, hc, hc'⟩, ⟨d, hd, hd'⟩⟩
    · rintro ⟨⟨a, ha, ha'⟩, ⟨b, hb, hb'⟩, ⟨c, hc, hc'⟩, ⟨d, hd, hd'⟩⟩
      exact ⟨_, ⟨a, ha, b, hb, c, hc, d, hd, rfl⟩, ha', hb', hc', hd'⟩

/-! ### What each helper changes -/

theorem addTypes_frame (stats : ViewStats) (visit : Visit) :
    ∃ types, addTypes stats visit = { stats with types := types } := by
  unfold addTypes
  split_ifs <;> exact ⟨_, rfl⟩

theorem addPlatformVariants_frame {type : PlatformType} {platformViews : ℤ}
    {isPlatform : Option (String → Bool)} {stats stats' : ViewStats}
    {platforms platforms' : Dictionary String ℤ}
    (h : addPlatformVariants type platformViews isPlatform stats platforms =
      .ret (stats', platforms')) :
    ∃ groups, stats' = { stats with platforms := groups } ∧
      ∀ t ∈ stats.platforms, t ∈ groups := by
  unfold addPlatformVariants at h
  split_ifs at h
  · obtain ⟨rfl, -⟩ := Prod.mk.inj (Exec.ret.inj h)
    exact ⟨stats.platforms, rfl, fun _ ht => ht⟩
  · obtain ⟨dicts, -, h⟩ := Exec.bind_eq_ret_iff.mp h
    obtain ⟨rfl, -⟩ := Prod.mk.inj (Exec.ret.inj h)
    exact ⟨_, rfl, fun t ht => mem_addGroup.mpr (.inr ht)⟩

/-- `AddPlatforms` counts an `Ios` entry for every row. -/
theorem addPlatforms_frame {env : Globalization} {stats stats' : ViewStats} {visit : Visit}
    (h : addPlatforms env stats visit = .ret stats') :
    ∃ groups, stats' = { stats with platforms := groups } ∧ .ios ∈ groups := by
  simp only [addPlatforms, Exec.bind_eq_ret_iff, Exec.pure_eq, Exec.ret.injEq, Prod.exists] at h
  obtain ⟨_, _, h1, _, _, h2, _, _, h3, _, _, h4, rfl⟩ := h
  obtain ⟨groups₁, rfl, -⟩ := addPlatformVariants_frame h1
  obtain ⟨groups₂, rfl, -⟩ := addPlatformVariants_frame h2
  obtain ⟨groups₃, rfl, hmem₃⟩ := addPlatformVariants_frame h3
  obtain ⟨groups₄, rfl, hmem₄⟩ := addPlatformVariants_frame h4
  refine ⟨groups₄, rfl, hmem₄ _ (mem_addGroup.mpr (.inr (hmem₃ _ (mem_addGroup.mpr (.inl rfl)))))⟩

theorem addBrowser_frame {type : BrowserType} {browserViews : ℤ} {browserName : Option String}
    {stats stats' : ViewStats} {browsers browsers' : Dictionary String ℤ}
    (h : addBrowser type browserViews browserName stats browsers = .ret (stats', browsers')) :
    ∃ groups, stats' = { stats with browsers := groups } := by
  unfold addBrowser at h
  split_ifs at h
  · obtain ⟨rfl, -⟩ := Prod.mk.inj (Exec.ret.inj h)
    exact ⟨stats.browsers, rfl⟩
  · obtain ⟨dicts, -, h⟩ := Exec.bind_eq_ret_iff.mp h
    obtain ⟨rfl, -⟩ := Prod.mk.inj (Exec.ret.inj h)
    exact ⟨_, rfl⟩

theorem addBrowsers_frame {stats stats' : ViewStats} {visit : Visit}
    (h : addBrowsers stats visit = .ret stats') :
    ∃ groups, stats' = { stats with browsers := groups } := by
  simp only [addBrowsers, Exec.bind_eq_ret_iff, Exec.pure_eq, Exec.ret.injEq, Prod.exists] at h
  obtain ⟨stats₁, browsers₁, hloop, _, _, hother, rfl⟩ := h
  obtain ⟨groups, rfl⟩ := addBrowser_frame hother
  have hfamilies : ∃ groups, stats₁ = { stats with browsers := groups } := by
    refine Exec.foldlM_invariant
      (P := fun dicts => ∃ groups, dicts.1 = { stats with browsers := groups }) hloop
      ⟨stats.browsers, rfl⟩ ?_
    intro family _ dicts dicts' hdicts hstep
    obtain ⟨groups, hgroups⟩ := hdicts
    obtain ⟨groups', hgroups'⟩ := addBrowser_frame hstep
    exact ⟨groups', by rw [hgroups', hgroups]⟩
  obtain ⟨_, rfl⟩ := hfamilies
  exact ⟨groups, rfl⟩

theorem addMobileDeviceTypes_eq (stats : ViewStats) (visit : Visit) :
    addMobileDeviceTypes stats visit =
      { stats with mobileDeviceTypes := stats.mobileDeviceTypes.merge visit.mobileDeviceTypes } := by
  unfold addMobileDeviceTypes
  refine Dictionary.foldl_addOrSum (g := fun d => { stats with mobileDeviceTypes := d }) ?_
    stats.mobileDeviceTypes visit.mobileDeviceTypes
  intro d entry
  rfl

theorem addCountries_eq (stats : ViewStats) (visit : Visit) :
    addCountries stats visit =
      { stats with countries := stats.countries.merge visit.countries } := by
  unfold addCountries
  refine Dictionary.foldl_addOrSum (g := fun d => { stats with countries := d }) ?_
    stats.countries visit.countries
  intro d entry
  rfl

theorem addReferrers_eq (stats : ViewStats) (visit : Visit) :
    addReferrers stats visit =
      { stats with referrers := stats.referrers.merge visit.referrers } := by
  unfold addReferrers
  refine Dictionary.foldl_addOrSum (g := fun d => { stats with referrers := d }) ?_
    stats.referrers visit.referrers
  intro d entry
  rfl

/-- What `AddVisit` leaves behind, field by field. -/
theorem addVisit_eq {env : Globalization} {stats stats' : ViewStats} {visit : Visit}
    (h : addVisit env stats visit = .ret stats') :
    ∃ types platforms browsers, .ios ∈ platforms ∧
      stats' =
        { types := types
          platforms := platforms
          browsers := browsers
          mobileDeviceTypes := stats.mobileDeviceTypes.merge visit.mobileDeviceTypes
          countries := stats.countries.merge visit.countries
          referrers := stats.referrers.merge visit.referrers
          views := toInt32 (stats.views + visit.total) } := by
  simp only [addVisit, Exec.bind_eq_ret_iff, Exec.pure_eq, Exec.ret.injEq] at h
  obtain ⟨stats₁, h1, stats₂, h2, rfl⟩ := h
  obtain ⟨types, htypes⟩ := addTypes_frame stats visit
  rw [htypes] at h1
  obtain ⟨platforms, rfl, hios⟩ := addPlatforms_frame h1
  obtain ⟨browsers, rfl⟩ := addBrowsers_frame h2
  refine ⟨types, platforms, browsers, hios, ?_⟩
  rw [addReferrers_eq, addCountries_eq, addMobileDeviceTypes_eq]

/-! ### `Views` and `Platforms` -/

theorem views_addVisit {env : Globalization} {stats stats' : ViewStats} {visit : Visit}
    (h : addVisit env stats visit = .ret stats') :
    stats'.views = toInt32 (stats.views + visit.total) := by
  obtain ⟨_, _, _, -, rfl⟩ := addVisit_eq h
  rfl

/-- `Views` is the sum of the rows' `Total`, as an `int`. -/
theorem views_addVisits {env : Globalization} {rows : List Visit} {stats : ViewStats}
    (h : addVisits env rows = .ret stats) : stats.views = toInt32 (rows.map Visit.total).sum := by
  have hloop : ∀ (rows : List Visit) (start : ViewStats) (x : ℤ), start.views = toInt32 x →
      rows.foldlM (addVisit env) start = .ret stats →
        stats.views = toInt32 (x + (rows.map Visit.total).sum) := by
    intro rows
    induction rows with
    | nil =>
      intro start x hx h
      obtain rfl := Exec.ret.inj h
      simpa using hx
    | cons visit rows ih =>
      intro start x hx h
      obtain ⟨start', hstep, hrows⟩ := Exec.foldlM_cons_eq_ret_iff.mp h
      have hx' : start'.views = toInt32 (x + visit.total) := by
        rw [views_addVisit hstep, hx, toInt32_add_toInt32]
      rw [ih start' _ hx' hrows, List.map_cons, List.sum_cons, add_assoc]
  simpa using hloop rows .empty 0 rfl h

/-- Statistics of at least one row have an `Ios` entry. -/
theorem ios_mem_addVisits {env : Globalization} {rows : List Visit} {stats : ViewStats}
    (h : addVisits env rows = .ret stats) (hne : rows ≠ []) : .ios ∈ stats.platforms := by
  obtain ⟨rows, visit, rfl⟩ := List.eq_nil_or_concat rows |>.resolve_left hne
  rw [addVisits, List.concat_eq_append, List.foldlM_append, Exec.bind_eq_ret_iff] at h
  obtain ⟨stats₁, -, hlast⟩ := h
  obtain ⟨stats₂, hvisit, hnil⟩ := Exec.foldlM_cons_eq_ret_iff.mp hlast
  obtain rfl := Exec.ret.inj hnil
  obtain ⟨_, platforms, _, hios, rfl⟩ := addVisit_eq hvisit
  exact hios

theorem convert_eq_ret_iff {env : Globalization} {shardId : ℤ} {now : ℤ} {url : Url}
    {s : UrlStats} :
    convert env shardId now url = .ret s ↔
      ShortId.toString ⟨shardId, url.id⟩ = .ret s.shortId ∧
      s.destinationUrl = url.destinationUrl ∧ s.totalViews = url.totalViews ∧
      addVisits env (url.visits.filter (·.IsWithin (days 1) now)) = .ret s.lastDay ∧
      addVisits env (url.visits.filter (·.IsWithin (days 7) now)) = .ret s.lastWeek ∧
      addVisits env (url.visits.filter (·.IsWithin (days 30) now)) = .ret s.lastMonth ∧
      addVisits env url.visits = .ret s.allTime := by
  simp only [convert, Exec.bind_eq_ret_iff, foldlM_addToWindows, foldlM_addVisitWithin, addVisits,
    Exec.pure_eq, Exec.ret.injEq]
  constructor
  · rintro ⟨stats, ⟨h1, h2, h3, h4⟩, shortId, hid, rfl⟩
    exact ⟨hid, rfl, rfl, h1, h2, h3, h4⟩
  · rintro ⟨hid, hurl, htotal, h1, h2, h3, h4⟩
    refine ⟨⟨s.lastDay, s.lastWeek, s.lastMonth, s.allTime⟩, ⟨h1, h2, h3, h4⟩, s.shortId, hid, ?_⟩
    ext <;> simp [hurl, htotal]

end Shortener.Stats
