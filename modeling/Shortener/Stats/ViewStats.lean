import Shortener.DotNet.Dictionary
import Shortener.Stats.UserAgent

/-!
# Statistics

`UrlStats` and `ViewStats` of `Shortener.Shared/Entities/Url.cs` and the methods that
accumulate into them (lines 178–246).
-/

namespace Shortener.Stats

open Shortener.DotNet

/-- `PlatformStats` and `BrowserStats`; `partViews` is `VariantViews` of the one and
    `VersionViews` of the other. -/
structure GroupStats (τ : Type) where
  type : τ
  views : ℤ
  partViews : Dictionary String ℤ

/-- A dictionary that has each group under its own type. -/
@[ext] structure Groups (τ : Type) [DecidableEq τ] where
  byType : Dictionary τ (GroupStats τ)
  keyed : ∀ type, ∀ stats ∈ byType.lookup type, stats.type = type

namespace Groups

variable {τ : Type} [DecidableEq τ]

instance : EmptyCollection (Groups τ) := ⟨⟨∅, fun _ _ h => nomatch h⟩⟩

instance : Membership τ (Groups τ) := ⟨fun groups type => type ∈ groups.byType⟩

/-- `groups[stats.Type] = stats`. -/
def insert (groups : Groups τ) (stats : GroupStats τ) : Groups τ where
  byType := groups.byType.insert stats.type stats
  keyed := by
    intro type stats' h
    by_cases heq : type = stats.type
    · rw [heq, AList.lookup_insert] at h
      rw [heq, ← Option.some.inj h]
    · rw [AList.lookup_insert_ne heq] at h
      exact groups.keyed type stats' h

/-- `Add(stats.Type, stats)`. -/
def add [ToString τ] (groups : Groups τ) (stats : GroupStats τ) : Exec (Groups τ) := do
  let _ ← groups.byType.add stats.type stats
  return groups.insert stats

theorem mem_insert {groups : Groups τ} {stats : GroupStats τ} {type : τ} :
    type ∈ groups.insert stats ↔ type = stats.type ∨ type ∈ groups :=
  AList.mem_insert groups.byType

end Groups

/-- `ViewStats`. -/
@[ext] structure ViewStats where
  types : Dictionary UserAgentType ℤ
  platforms : Groups PlatformType
  browsers : Groups BrowserType
  mobileDeviceTypes : Dictionary String ℤ
  countries : Dictionary String ℤ
  referrers : Dictionary String ℤ
  views : ℤ

/-- `new ViewStats()`. -/
def ViewStats.empty : ViewStats := ⟨∅, ∅, ∅, ∅, ∅, ∅, 0⟩

/-- `UrlStats`. -/
@[ext] structure UrlStats where
  shortId : String
  destinationUrl : String
  totalViews : ℤ
  lastDay : ViewStats
  lastWeek : ViewStats
  lastMonth : ViewStats
  allTime : ViewStats

/-- The body that `AddPlatform` and `AddBrowser` share. -/
def addGroup {τ : Type} [DecidableEq τ] (groups : Groups τ) (type : τ) (views : ℤ)
    (partViews : Dictionary String ℤ) : Groups τ :=
  match groups.byType.lookup type with
  | some stats =>
    groups.insert
      { stats with views := toInt32 (stats.views + views), partViews := stats.partViews.merge partViews }
  | none => groups.insert ⟨type, views, partViews⟩

/-- `AddType`. -/
def ViewStats.addType (stats : ViewStats) (type : UserAgentType) (views : ℤ) : ViewStats :=
  { stats with types := stats.types.addOrSum type views }

/-- `AddPlatform`. -/
def ViewStats.addPlatform (stats : ViewStats) (type : PlatformType) (views : ℤ)
    (variantViews : Dictionary String ℤ) : ViewStats :=
  { stats with platforms := addGroup stats.platforms type views variantViews }

/-- `AddBrowser`. -/
def ViewStats.addBrowser (stats : ViewStats) (type : BrowserType) (views : ℤ)
    (versionViews : Dictionary String ℤ) : ViewStats :=
  { stats with browsers := addGroup stats.browsers type views versionViews }

/-- `AddMobileDeviceType`. -/
def ViewStats.addMobileDeviceType (stats : ViewStats) (type : String) (views : ℤ) : ViewStats :=
  { stats with mobileDeviceTypes := stats.mobileDeviceTypes.addOrSum type views }

/-- `AddCountry`. -/
def ViewStats.addCountry (stats : ViewStats) (country : String) (views : ℤ) : ViewStats :=
  { stats with countries := stats.countries.addOrSum country views }

/-- `AddReferrer`. -/
def ViewStats.addReferrer (stats : ViewStats) (referrer : String) (views : ℤ) : ViewStats :=
  { stats with referrers := stats.referrers.addOrSum referrer views }

theorem mem_addGroup {τ : Type} [DecidableEq τ] {groups : Groups τ} {type t : τ} {views : ℤ}
    {partViews : Dictionary String ℤ} :
    t ∈ addGroup groups type views partViews ↔ t = type ∨ t ∈ groups := by
  unfold addGroup
  split
  · next stats h => rw [Groups.mem_insert, groups.keyed type stats h]
  · rw [Groups.mem_insert]

end Shortener.Stats
