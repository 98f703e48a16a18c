import Shortener.Stats.ViewStats

/-!
# Statistics in replies

The messages of `Shortener.Shared/Protos`, `Serialize` and the constructors that read
the messages back (`Shortener.Shared/Entities/Url.cs`, lines 11–46 and 71–176), with
`UserAgentExtensions` and `GrpcUtils`. Dictionaries cross the wire as lists of entries.

* `UrlStats.ofGrpc_serialize`: reading a message back never throws; it gives a copy that
  has the same entries in every dictionary (`UrlStats.copied_same`).
-/

namespace Shortener.Stats

open Shortener.DotNet

namespace Grpc

/-- `UserAgentType` of the gRPC contract. -/
inductive UserAgent
  | browser
  | robot
  | unknown
  deriving DecidableEq, Repr

/-- `PlatformType` of the gRPC contract. -/
inductive Platform
  | windows
  | linux
  | ios
  | macos
  | android
  | other
  deriving DecidableEq, Repr

/-- `BrowserType` of the gRPC contract. -/
inductive Browser
  | chrome
  | edge
  | firefox
  | internetExplorer
  | opera
  | safari
  | other
  deriving DecidableEq, Repr

/-- `UserAgentEntry`, `MobileDeviceTypeEntry`, `CountryEntry` and `ReferrerEntry`. -/
structure ViewsEntry (κ : Type) where
  key : κ
  views : ℤ

/-- `PlatformEntry` and `BrowserEntry`. -/
structure GroupEntry (σ : Type) where
  type : σ
  views : ℤ
  partViews : Dictionary String ℤ

/-- `GrpcViewStats`. -/
structure ViewStats where
  types : List (ViewsEntry UserAgent)
  platforms : List (GroupEntry Platform)
  browsers : List (GroupEntry Browser)
  mobileDeviceTypes : List (ViewsEntry String)
  countries : List (ViewsEntry String)
  referrers : List (ViewsEntry String)
  views : ℤ

/-- `GrpcUrlStats`. -/
structure UrlStats where
  shortId : String
  destinationUrl : String
  totalViews : ℤ
  lastDay : ViewStats
  lastWeek : ViewStats
  lastMonth : ViewStats
  allTime : ViewStats

end Grpc

/-! ## The enumerations -/

/-- `UserAgentExtensions.Serialize` of a `UserAgentType`. -/
def UserAgentType.serialize : UserAgentType → Grpc.UserAgent
  | .browser => .browser
  | .robot => .robot
  | .unknown => .unknown

/-- `UserAgentExtensions.Serialize` of a `PlatformType`. -/
def PlatformType.serialize : PlatformType → Grpc.Platform
  | .windows => .windows
  | .linux => .linux
  | .ios => .ios
  | .macOs => .macos
  | .android => .android
  | .other => .other

/-- `UserAgentExtensions.Serialize` of a `BrowserType`. -/
def BrowserType.serialize : BrowserType → Grpc.Browser
  | .chrome => .chrome
  | .edge => .edge
  | .firefox => .firefox
  | .internetExplorer => .internetExplorer
  | .opera => .opera
  | .safari => .safari
  | .other => .other

/-- `GrpcUtils.Deserialize` of a `UserAgent`. -/
def Grpc.UserAgent.deserialize : Grpc.UserAgent → UserAgentType
  | .browser => .browser
  | .robot => .robot
  | .unknown => .unknown

/-- `GrpcUtils.Deserialize` of a `Platform`. -/
def Grpc.Platform.deserialize : Grpc.Platform → PlatformType
  | .windows => .windows
  | .linux => .linux
  | .ios => .ios
  | .macos => .macOs
  | .android => .android
  | .other => .other

/-- `GrpcUtils.Deserialize` of a `Browser`. -/
def Grpc.Browser.deserialize : Grpc.Browser → BrowserType
  | .chrome => .chrome
  | .edge => .edge
  | .firefox => .firefox
  | .internetExplorer => .internetExplorer
  | .opera => .opera
  | .safari => .safari
  | .other => .other

theorem UserAgentType.deserialize_serialize (type : UserAgentType) :
    type.serialize.deserialize = type := by
  cases type <;> rfl

theorem PlatformType.deserialize_serialize (type : PlatformType) :
    type.serialize.deserialize = type := by
  cases type <;> rfl

theorem BrowserType.deserialize_serialize (type : BrowserType) :
    type.serialize.deserialize = type := by
  cases type <;> rfl

/-! ## The dictionaries -/

section

variable {κ σ τ : Type} [DecidableEq κ] [ToString κ] [DecidableEq τ] [ToString τ]

/-- The loop over a dictionary of counts. -/
def serializeViews (serialize : κ → σ) (views : Dictionary κ ℤ) : List (Grpc.ViewsEntry σ) :=
  views.entries.map fun entry => ⟨serialize entry.1, entry.2⟩

/-- The loop of `Add`, or `ToDictionary`, over its entries. -/
def deserializeViews (deserialize : σ → κ) (entries : List (Grpc.ViewsEntry σ)) :
    Exec (Dictionary κ ℤ) :=
  Dictionary.ofEntries (entries.map fun entry => ⟨deserialize entry.key, entry.views⟩)

/-- The loop over `Platforms` or `Browsers`. -/
def serializeGroups (serialize : τ → σ) (groups : Groups τ) : List (Grpc.GroupEntry σ) :=
  groups.byType.entries.map fun entry =>
    { type := serialize entry.1, views := entry.2.views, partViews := entry.2.partViews }

/-- The loop over its entries. -/
def deserializeGroups (deserialize : σ → τ) (entries : List (Grpc.GroupEntry σ)) :
    Exec (Groups τ) :=
  entries.foldlM (fun groups entry => do
    let partViews ← Dictionary.ofEntries entry.partViews.entries
    groups.add { type := deserialize entry.type, views := entry.views, partViews := partViews }) ∅

/-- A group with its own copy of the dictionary. -/
def GroupStats.copied (stats : GroupStats τ) : GroupStats τ :=
  { stats with partViews := stats.partViews.reversed }

/-- The groups as a frontend has them; the entries come in reverse order. -/
def Groups.copied (groups : Groups τ) : Groups τ where
  byType := (groups.byType.map GroupStats.copied).reversed
  keyed := by
    intro type stats h
    rw [Dictionary.lookup_reversed, Dictionary.lookup_map] at h
    obtain ⟨stats', h', rfl⟩ := Option.map_eq_some_iff.mp h
    exact groups.keyed type stats' h'

theorem deserializeViews_serializeViews {serialize : κ → σ} {deserialize : σ → κ}
    (h : ∀ key, deserialize (serialize key) = key) (views : Dictionary κ ℤ) :
    deserializeViews deserialize (serializeViews serialize views) = .ret views.reversed := by
  unfold deserializeViews serializeViews
  rw [List.map_map, ← Dictionary.ofEntries_entries]
  congr 1
  refine (List.map_congr_left fun entry _ => ?_).trans (List.map_id _)
  show (⟨deserialize (serialize entry.1), entry.2⟩ : Σ _ : κ, ℤ) = entry
  rw [h]

/-- Adding groups is adding them to the dictionary under their types. -/
theorem Groups.map_foldlM_add (stats : List (GroupStats τ)) (groups : Groups τ) :
    Groups.byType <$> stats.foldlM Groups.add groups =
      (stats.map fun s => (⟨s.type, s⟩ : Σ _ : τ, GroupStats τ)).foldlM
        (fun d entry => d.add entry.1 entry.2) groups.byType := by
  induction stats generalizing groups with
  | nil => rfl
  | cons s stats ih =>
    rw [List.map_cons, List.foldlM_cons, List.foldlM_cons]
    by_cases h : s.type ∈ groups.byType
    · simp [Groups.add, Dictionary.add, h, map_eq_pure_bind]
    · have hadd : groups.byType.add s.type s = .ret (groups.insert s).byType :=
        Dictionary.add_eq_ret_iff.mpr ⟨h, rfl⟩
      rw [Groups.add, hadd]
      exact ih _

theorem deserializeGroups_serializeGroups {serialize : τ → σ} {deserialize : σ → τ}
    (h : ∀ type, deserialize (serialize type) = type) (groups : Groups τ) :
    deserializeGroups deserialize (serializeGroups serialize groups) = .ret groups.copied := by
  -- the loop adds the copies of the groups, since each is under its own type
  have hloop : deserializeGroups deserialize (serializeGroups serialize groups) =
      (groups.byType.entries.map fun entry => entry.2.copied).foldlM Groups.add ∅ := by
    unfold deserializeGroups serializeGroups
    rw [List.foldlM_map, List.foldlM_map]
    apply Exec.foldlM_congr
    intro entry hentry groups'
    have htype : entry.2.type = entry.1 :=
      groups.keyed _ _ (AList.mem_lookup_iff.mpr hentry)
    rw [Dictionary.ofEntries_entries, Exec.ret_bind, h, ← htype]
    rfl
  have hentries : (groups.byType.entries.map fun entry => entry.2.copied).map
      (fun s => (⟨s.type, s⟩ : Σ _ : τ, GroupStats τ)) = (groups.byType.map GroupStats.copied).entries := by
    rw [List.map_map]
    apply List.map_congr_left
    intro entry hentry
    have htype : entry.2.type = entry.1 :=
      groups.keyed _ _ (AList.mem_lookup_iff.mpr hentry)
    show (⟨entry.2.type, entry.2.copied⟩ : Σ _ : τ, GroupStats τ) = ⟨entry.1, entry.2.copied⟩
    rw [htype]
  have hdict := Groups.map_foldlM_add (groups.byType.entries.map fun entry => entry.2.copied) ∅
  rw [hentries, ← hloop] at hdict
  obtain ⟨groups', hret, hbyType⟩ := Exec.map_eq_ret_iff.mp
    (hdict.trans (Dictionary.ofEntries_entries (groups.byType.map GroupStats.copied)))
  rw [hret]
  exact congrArg Exec.ret (Groups.ext hbyType)

end

/-! ## The messages -/

/-- `ViewStats.Serialize`. -/
def ViewStats.serialize (stats : ViewStats) : Grpc.ViewStats where
  types := serializeViews UserAgentType.serialize stats.types
  platforms := serializeGroups PlatformType.serialize stats.platforms
  browsers := serializeGroups BrowserType.serialize stats.browsers
  mobileDeviceTypes := serializeViews id stats.mobileDeviceTypes
  countries := serializeViews id stats.countries
  referrers := serializeViews id stats.referrers
  views := stats.views

/-- `new ViewStats(stats)`. -/
def ViewStats.ofGrpc (stats : Grpc.ViewStats) : Exec ViewStats := do
  let types ← deserializeViews Grpc.UserAgent.deserialize stats.types
  let platforms ← deserializeGroups Grpc.Platform.deserialize stats.platforms
  let browsers ← deserializeGroups Grpc.Browser.deserialize stats.browsers
  let mobileDeviceTypes ← deserializeViews id stats.mobileDeviceTypes
  let countries ← deserializeViews id stats.countries
  let referrers ← deserializeViews id stats.referrers
  return {
    types := types
    platforms := platforms
    browsers := browsers
    mobileDeviceTypes := mobileDeviceTypes
    countries := countries
    referrers := referrers
    views := stats.views }

/-- `UrlStats.Serialize`. -/
def UrlStats.serialize (url : UrlStats) : Grpc.UrlStats where
  shortId := url.shortId
  destinationUrl := url.destinationUrl
  totalViews := url.totalViews
  lastDay := url.lastDay.serialize
  lastWeek := url.lastWeek.serialize
  lastMonth := url.lastMonth.serialize
  allTime := url.allTime.serialize

/-- `new UrlStats(url)`. -/
def UrlStats.ofGrpc (url : Grpc.UrlStats) : Exec UrlStats := do
  let lastDay ← ViewStats.ofGrpc url.lastDay
  let lastWeek ← ViewStats.ofGrpc url.lastWeek
  let lastMonth ← ViewStats.ofGrpc url.lastMonth
  let allTime ← ViewStats.ofGrpc url.allTime
  return {
    shortId := url.shortId
    destinationUrl := url.destinationUrl
    totalViews := url.totalViews
    lastDay := lastDay
    lastWeek := lastWeek
    lastMonth := lastMonth
    allTime := allTime }

/-! ## Equality field by field -/

/-- What can be read from a group. -/
def GroupStats.content {τ : Type} (stats : GroupStats τ) : τ × ℤ × (String → Option ℤ) :=
  (stats.type, stats.views, fun part => stats.partViews.lookup part)

/-- The fields agree, and the dictionaries entry by entry. -/
structure ViewStats.Same (s t : ViewStats) : Prop where
  types : ∀ type, s.types.lookup type = t.types.lookup type
  platforms : ∀ type, (s.platforms.byType.lookup type).map GroupStats.content =
    (t.platforms.byType.lookup type).map GroupStats.content
  browsers : ∀ type, (s.browsers.byType.lookup type).map GroupStats.content =
    (t.browsers.byType.lookup type).map GroupStats.content
  mobileDeviceTypes : ∀ name, s.mobileDeviceTypes.lookup name = t.mobileDeviceTypes.lookup name
  countries : ∀ name, s.countries.lookup name = t.countries.lookup name
  referrers : ∀ name, s.referrers.lookup name = t.referrers.lookup name
  views : s.views = t.views

/-- The same statistics, whatever the order of entries. -/
structure UrlStats.Same (s t : UrlStats) : Prop where
  shortId : s.shortId = t.shortId
  destinationUrl : s.destinationUrl = t.destinationUrl
  totalViews : s.totalViews = t.totalViews
  lastDay : s.lastDay.Same t.lastDay
  lastWeek : s.lastWeek.Same t.lastWeek
  lastMonth : s.lastMonth.Same t.lastMonth
  allTime : s.allTime.Same t.allTime

theorem ViewStats.Same.refl (s : ViewStats) : s.Same s :=
  ⟨fun _ => rfl, fun _ => rfl, fun _ => rfl, fun _ => rfl, fun _ => rfl, fun _ => rfl, rfl⟩

theorem UrlStats.Same.refl (s : UrlStats) : s.Same s :=
  ⟨rfl, rfl, rfl, .refl _, .refl _, .refl _, .refl _⟩

theorem ViewStats.Same.symm {s t : ViewStats} (h : s.Same t) : t.Same s :=
  ⟨fun k => (h.types k).symm, fun k => (h.platforms k).symm, fun k => (h.browsers k).symm,
    fun k => (h.mobileDeviceTypes k).symm, fun k => (h.countries k).symm,
    fun k => (h.referrers k).symm, h.views.symm⟩

theorem ViewStats.Same.trans {s t u : ViewStats} (h : s.Same t) (h' : t.Same u) : s.Same u :=
  ⟨fun k => (h.types k).trans (h'.types k), fun k => (h.platforms k).trans (h'.platforms k),
    fun k => (h.browsers k).trans (h'.browsers k),
    fun k => (h.mobileDeviceTypes k).trans (h'.mobileDeviceTypes k),
    fun k => (h.countries k).trans (h'.countries k),
    fun k => (h.referrers k).trans (h'.referrers k), h.views.trans h'.views⟩

theorem UrlStats.Same.symm {s t : UrlStats} (h : s.Same t) : t.Same s :=
  ⟨h.shortId.symm, h.destinationUrl.symm, h.totalViews.symm, h.lastDay.symm, h.lastWeek.symm,
    h.lastMonth.symm, h.allTime.symm⟩

theorem UrlStats.Same.trans {s t u : UrlStats} (h : s.Same t) (h' : t.Same u) : s.Same u :=
  ⟨h.shortId.trans h'.shortId, h.destinationUrl.trans h'.destinationUrl,
    h.totalViews.trans h'.totalViews, h.lastDay.trans h'.lastDay, h.lastWeek.trans h'.lastWeek,
    h.lastMonth.trans h'.lastMonth, h.allTime.trans h'.allTime⟩

/-! ## There and back -/

/-- The same statistics with their own copies of the dictionaries. -/
def ViewStats.copied (stats : ViewStats) : ViewStats where
  types := stats.types.reversed
  platforms := stats.platforms.copied
  browsers := stats.browsers.copied
  mobileDeviceTypes := stats.mobileDeviceTypes.reversed
  countries := stats.countries.reversed
  referrers := stats.referrers.reversed
  views := stats.views

/-- The statistics as a frontend has them. -/
def UrlStats.copied (url : UrlStats) : UrlStats :=
  { url with
    lastDay := url.lastDay.copied
    lastWeek := url.lastWeek.copied
    lastMonth := url.lastMonth.copied
    allTime := url.allTime.copied }

theorem Groups.lookup_copied {τ : Type} [DecidableEq τ] (groups : Groups τ) (type : τ) :
    (groups.copied.byType.lookup type).map GroupStats.content =
      (groups.byType.lookup type).map GroupStats.content := by
  have hcontent : (GroupStats.content ∘ GroupStats.copied : GroupStats τ → _) =
      GroupStats.content := by
    funext stats
    simp [GroupStats.content, GroupStats.copied]
  rw [Groups.copied, Dictionary.lookup_reversed, Dictionary.lookup_map, Option.map_map, hcontent]

theorem ViewStats.copied_same (stats : ViewStats) : stats.copied.Same stats :=
  ⟨Dictionary.lookup_reversed _, Groups.lookup_copied _, Groups.lookup_copied _,
    Dictionary.lookup_reversed _, Dictionary.lookup_reversed _, Dictionary.lookup_reversed _, rfl⟩

theorem UrlStats.copied_same (url : UrlStats) : url.copied.Same url :=
  ⟨rfl, rfl, rfl, url.lastDay.copied_same, url.lastWeek.copied_same, url.lastMonth.copied_same,
    url.allTime.copied_same⟩

theorem ViewStats.ofGrpc_serialize (stats : ViewStats) :
    ViewStats.ofGrpc stats.serialize = .ret stats.copied := by
  have hid : ∀ name : String, id (id name) = name := fun _ => rfl
  simp only [ViewStats.ofGrpc, ViewStats.serialize,
    deserializeViews_serializeViews UserAgentType.deserialize_serialize,
    deserializeGroups_serializeGroups PlatformType.deserialize_serialize,
    deserializeGroups_serializeGroups BrowserType.deserialize_serialize,
    deserializeViews_serializeViews hid, Exec.ret_bind, Exec.pure_eq, ViewStats.copied]

/-- The reply carries everything. -/
theorem UrlStats.ofGrpc_serialize (url : UrlStats) :
    UrlStats.ofGrpc url.serialize = .ret url.copied := by
  simp only [UrlStats.ofGrpc, UrlStats.serialize, ViewStats.ofGrpc_serialize, Exec.ret_bind,
    Exec.pure_eq, UrlStats.copied]

end Shortener.Stats
