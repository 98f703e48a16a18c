import Shortener.DotNet.Json
import Shortener.Stats.Convert
import Shortener.Stats.Reply

/-!
# Statistics in the cache

`UpdateUrlStatsCacheInBackground` and `UpdateUrlStatsPaginationCacheInBackground` store
what `Convert` returned with `Set` and `SetHash`, and the frontends read it with `Get` and
`GetHash` (`Shortener.Shared/Services/CacheService.cs`, lines 39–124), both with
`JsonUtils.SerializerOptions`: the default options, and converters for types of NodaTime
that do not occur here. The six dictionaries of `ViewStats` have no setter
(`Shortener.Shared/Entities/Url.cs`, lines 117–129).

* `fromCache_eq`: what a cache hit gives, `UrlStats.cached`: every view count is there and
  every dictionary is empty.
* `cacheHit_agrees_iff`: hit and reply agree exactly for a URL without visits.
-/

namespace Shortener.Stats

open Shortener.DotNet

/-! ## Contracts -/

section

variable {κ τ : Type} [ToString κ] [DecidableEq τ] [ToString τ]

/-- `Dictionary<TKey, int>`. -/
def viewsJson (views : Dictionary κ ℤ) : Json :=
  .object (views.entries.map fun entry => (toString entry.1, .number entry.2))

/-- `PlatformStats` or `BrowserStats`, of which an enumeration is written as its number. -/
def groupStatsJson (number : τ → ℕ) (partViews : String) (stats : GroupStats τ) : Json :=
  .object [("Type", .number (number stats.type)), ("Views", .number stats.views),
    (partViews, viewsJson stats.partViews)]

/-- The dictionary of groups, as it is written. -/
def groupsJson (number : τ → ℕ) (partViews : String) (groups : Groups τ) : Json :=
  .object (groups.byType.entries.map fun entry =>
    (toString entry.1, groupStatsJson number partViews entry.2))

end

/-- `ViewStats` as the serializer sees it. -/
def viewStatsContract : Contract ViewStats where
  create := .empty
  properties := [
    .readOnly "Types" viewsJson ViewStats.types,
    .readOnly "Platforms" (groupsJson PlatformType.ctorIdx "VariantViews") ViewStats.platforms,
    .readOnly "Browsers" (groupsJson BrowserType.ctorIdx "VersionViews") ViewStats.browsers,
    .readOnly "MobileDeviceTypes" viewsJson ViewStats.mobileDeviceTypes,
    .readOnly "Countries" viewsJson ViewStats.countries,
    .readOnly "Referrers" viewsJson ViewStats.referrers,
    .readWrite "Views" .int ViewStats.views fun views stats => { stats with views := views }]

/-- A `UrlStats` object, of which the references are null before they are assigned. -/
structure UrlStatsObject where
  shortId : Option String
  destinationUrl : Option String
  totalViews : ℤ
  lastDay : Option ViewStats
  lastWeek : Option ViewStats
  lastMonth : Option ViewStats
  allTime : Option ViewStats

/-- The object that is written to the cache. -/
def UrlStats.toObject (url : UrlStats) : UrlStatsObject where
  shortId := some url.shortId
  destinationUrl := some url.destinationUrl
  totalViews := url.totalViews
  lastDay := some url.lastDay
  lastWeek := some url.lastWeek
  lastMonth := some url.lastMonth
  allTime := some url.allTime

/-- `UrlStats` as the serializer sees it. -/
def urlStatsContract : Contract UrlStatsObject where
  create := ⟨none, none, 0, none, none, none, none⟩
  properties := [
    .readWrite "ShortId" .string UrlStatsObject.shortId
      fun shortId url => { url with shortId := shortId },
    .readWrite "DestinationUrl" .string UrlStatsObject.destinationUrl
      fun destinationUrl url => { url with destinationUrl := destinationUrl },
    .readWrite "TotalViews" .int UrlStatsObject.totalViews
      fun totalViews url => { url with totalViews := totalViews },
    .readWrite "LastDay" viewStatsContract.converter UrlStatsObject.lastDay
      fun lastDay url => { url with lastDay := lastDay },
    .readWrite "LastWeek" viewStatsContract.converter UrlStatsObject.lastWeek
      fun lastWeek url => { url with lastWeek := lastWeek },
    .readWrite "LastMonth" viewStatsContract.converter UrlStatsObject.lastMonth
      fun lastMonth url => { url with lastMonth := lastMonth },
    .readWrite "AllTime" viewStatsContract.converter UrlStatsObject.allTime
      fun allTime url => { url with allTime := allTime }]

/-! ## The two ways to a frontend -/

/-- `Set` at the backend, then `Get` at a frontend. -/
def fromCache (url : UrlStats) : Exec UrlStatsObject :=
  urlStatsContract.deserialize (urlStatsContract.serialize url.toObject)

/-- `Serialize` at the backend, then `new UrlStats(reply.Url)` at a frontend. -/
def fromReply (url : UrlStats) : Exec UrlStats := UrlStats.ofGrpc url.serialize

/-- What the cache keeps of a window. -/
def ViewStats.cached (stats : ViewStats) : ViewStats := { ViewStats.empty with views := stats.views }

/-- What the cache keeps. -/
def UrlStats.cached (url : UrlStats) : UrlStats :=
  { url with
    lastDay := url.lastDay.cached
    lastWeek := url.lastWeek.cached
    lastMonth := url.lastMonth.cached
    allTime := url.allTime.cached }

/-- The counts are `int`s, as they are in the source. -/
structure UrlStats.InRange (url : UrlStats) : Prop where
  totalViews : IsInt32 url.totalViews
  lastDay : IsInt32 url.lastDay.views
  lastWeek : IsInt32 url.lastWeek.views
  lastMonth : IsInt32 url.lastMonth.views
  allTime : IsInt32 url.allTime.views

theorem ViewStats.deserialize_serialize {stats : ViewStats} (h : IsInt32 stats.views) :
    viewStatsContract.deserialize (viewStatsContract.serialize stats) = .ret stats.cached := by
  rw [Contract.deserialize_serialize (by decide)]
  simp only [viewStatsContract, List.foldlM_cons, List.foldlM_nil, Property.copy_readOnly,
    Exec.ret_bind, Property.copy_readWrite (Converter.read_write_int h)]
  rfl

/-- A cache hit keeps the view counts and drops the dictionaries. -/
theorem fromCache_eq {url : UrlStats} (h : url.InRange) :
    fromCache url = .ret url.cached.toObject := by
  have hwindow : ∀ stats : ViewStats, IsInt32 stats.views →
      viewStatsContract.converter.read (viewStatsContract.converter.write (some stats)) =
        .ret (some stats.cached) :=
    fun stats h => Contract.read_write_converter (ViewStats.deserialize_serialize h)
  have htotal : IsInt32 url.toObject.totalViews := h.totalViews
  have hday : viewStatsContract.converter.read (viewStatsContract.converter.write
      url.toObject.lastDay) = .ret (some url.lastDay.cached) := hwindow _ h.lastDay
  have hweek : viewStatsContract.converter.read (viewStatsContract.converter.write
      url.toObject.lastWeek) = .ret (some url.lastWeek.cached) := hwindow _ h.lastWeek
  have hmonth : viewStatsContract.converter.read (viewStatsContract.converter.write
      url.toObject.lastMonth) = .ret (some url.lastMonth.cached) := hwindow _ h.lastMonth
  have hall : viewStatsContract.converter.read (viewStatsContract.converter.write
      url.toObject.allTime) = .ret (some url.allTime.cached) := hwindow _ h.allTime
  rw [fromCache, Contract.deserialize_serialize (by decide)]
  simp only [urlStatsContract, List.foldlM_cons, List.foldlM_nil, Exec.ret_bind,
    Property.copy_readWrite (Converter.read_write_string url.toObject.shortId),
    Property.copy_readWrite (Converter.read_write_string url.toObject.destinationUrl),
    Property.copy_readWrite (Converter.read_write_int htotal), Property.copy_readWrite hday,
    Property.copy_readWrite hweek, Property.copy_readWrite hmonth, Property.copy_readWrite hall]
  rfl

/-! ## When the two agree -/

/-- Nothing was counted in the window. -/
def ViewStats.NoEntries (stats : ViewStats) : Prop := stats.Same stats.cached

theorem ViewStats.noEntries_empty : ViewStats.empty.NoEntries := ViewStats.Same.refl ViewStats.empty

theorem ViewStats.not_noEntries {stats : ViewStats} {type : PlatformType}
    (h : type ∈ stats.platforms) : ¬ stats.NoEntries := by
  intro hempty
  obtain ⟨group, hgroup⟩ := Option.isSome_iff_exists.mp (AList.lookup_isSome.mpr h)
  have hplatform := hempty.platforms type
  rw [hgroup] at hplatform
  cases hplatform

/-- Hit and reply agree if there is no entry in any window. -/
theorem UrlStats.cached_same_copied_iff (url : UrlStats) :
    url.cached.Same url.copied ↔
      url.lastDay.NoEntries ∧ url.lastWeek.NoEntries ∧ url.lastMonth.NoEntries ∧
        url.allTime.NoEntries := by
  constructor
  · intro h
    have hsame := h.trans url.copied_same
    exact ⟨hsame.lastDay.symm, hsame.lastWeek.symm, hsame.lastMonth.symm, hsame.allTime.symm⟩
  · intro ⟨hday, hweek, hmonth, hall⟩
    have hsame : url.cached.Same url :=
      ⟨rfl, rfl, rfl, hday.symm, hweek.symm, hmonth.symm, hall.symm⟩
    exact hsame.trans url.copied_same.symm

/-- A window has no entries if no row was added to it. -/
theorem addVisits_noEntries_iff {env : Globalization} {rows : List Visit} {stats : ViewStats}
    (h : addVisits env rows = .ret stats) : stats.NoEntries ↔ rows = [] := by
  constructor
  · intro hempty
    by_contra hne
    exact ViewStats.not_noEntries (ios_mem_addVisits h hne) hempty
  · intro hrows
    rw [hrows] at h
    obtain rfl := Exec.ret.inj h
    exact ViewStats.noEntries_empty

theorem inRange_of_convert {env : Globalization} {shardId now : ℤ} {url : Url} {s : UrlStats}
    (htotal : IsInt32 url.totalViews) (h : convert env shardId now url = .ret s) : s.InRange := by
  obtain ⟨-, -, htotal', hday, hweek, hmonth, hall⟩ := convert_eq_ret_iff.mp h
  have hviews : ∀ {rows : List Visit} {stats : ViewStats}, addVisits env rows = .ret stats →
      IsInt32 stats.views := fun hstats => by
    rw [views_addVisits hstats]
    exact isInt32_toInt32 _
  exact ⟨htotal'.symm ▸ htotal, hviews hday, hviews hweek, hviews hmonth, hviews hall⟩

theorem convert_agrees_iff {env : Globalization} {shardId now : ℤ} {url : Url} {s : UrlStats}
    (h : convert env shardId now url = .ret s) :
    s.cached.Same s.copied ↔ url.visits = [] := by
  obtain ⟨-, -, -, hday, hweek, hmonth, hall⟩ := convert_eq_ret_iff.mp h
  rw [UrlStats.cached_same_copied_iff, addVisits_noEntries_iff hday, addVisits_noEntries_iff hweek,
    addVisits_noEntries_iff hmonth, addVisits_noEntries_iff hall]
  constructor
  · intro ⟨_, _, _, hrows⟩
    exact hrows
  · intro hrows
    simp [hrows]

/-- **When a cache hit agrees with the reply.** -/
theorem cacheHit_agrees_iff {env : Globalization} {shardId now : ℤ} {url : Url} {s : UrlStats}
    (htotal : IsInt32 url.totalViews) (h : convert env shardId now url = .ret s) :
    ∃ hit reply, fromCache s = .ret (UrlStats.toObject hit) ∧ fromReply s = .ret reply ∧
      (hit.Same reply ↔ url.visits = []) :=
  ⟨s.cached, s.copied, fromCache_eq (inRange_of_convert htotal h), UrlStats.ofGrpc_serialize s,
    convert_agrees_iff h⟩

/-- A URL that was never visited. -/
def unvisited : Url := ⟨5, "https://example.com", 1, 0, [], 0⟩

theorem cacheHit_agrees_unvisited :
    ∃ s hit reply, convert .invariantMode 0 0 unvisited = .ret s ∧
      fromCache s = .ret (UrlStats.toObject hit) ∧ fromReply s = .ret reply ∧ hit.Same reply := by
  have hreturns : (convert .invariantMode 0 0 unvisited).Returns := by decide +kernel
  obtain ⟨s, hs⟩ := hreturns
  obtain ⟨hit, reply, hhit, hreply, hiff⟩ := cacheHit_agrees_iff (by decide) hs
  exact ⟨s, hit, reply, hs, hhit, hreply, hiff.mpr rfl⟩

/-- A URL with one visit. -/
def visitedOnce : Url :=
  ⟨5, "https://example.com", 1, 1, [Visit.insert 1 ⟨5, "DE", none, none⟩ 0], 0⟩

theorem cacheHit_visitedOnce :
    ∃ s hit reply, convert .invariantMode 0 0 visitedOnce = .ret s ∧
      fromCache s = .ret (UrlStats.toObject hit) ∧ fromReply s = .ret reply ∧
      ¬ hit.Same reply := by
  have hreturns : (convert .invariantMode 0 0 visitedOnce).Returns := by decide +kernel
  obtain ⟨s, hs⟩ := hreturns
  refine ⟨s, s.cached, s.copied, hs, fromCache_eq (inRange_of_convert (by decide) hs),
    UrlStats.ofGrpc_serialize s, ?_⟩
  rw [convert_agrees_iff hs]
  exact List.cons_ne_nil _ _

end Shortener.Stats
