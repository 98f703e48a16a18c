import Shortener.DotNet.Count
import Shortener.Stats.Convert

/-!
# What a row adds

`AddVisit` reads a row and accumulates into a window at the same time. What it reads does not
depend on the window: the arguments of its calls of `AddPlatform` and `AddBrowser` are lists
of groups, `platformParts` and `browserParts`. What it accumulates is an addition of counters.

* `addPlatforms_eq`, `addBrowsers_eq`: reading first and accumulating afterwards.
* `addVisit_adds`: what a row adds to a window.
* `sum_addVisits`, `groups_addVisits`: what all rows of a window add up to.
-/

namespace Shortener.Stats

open Shortener.DotNet

/-! ## Counters of a group -/

/-- The views of a group and of its parts; the group may be absent. -/
abbrev GroupCount := WithZero (Wrapped × (String → Count))

section

variable {τ : Type} [DecidableEq τ]

/-- The count of a group, and those of its parts. -/
def GroupStats.counts (stats : GroupStats τ) : Wrapped × (String → Count) :=
  (⟨stats.views⟩, stats.partViews.counts)

/-- The counts of the group of a type, nothing if there is none. -/
def Groups.counts (groups : Groups τ) (type : τ) : GroupCount :=
  ((groups.byType.lookup type).map GroupStats.counts : Option (Wrapped × (String → Count)))

/-- A list of groups, of which some may be of one type. -/
def partCounts (parts : List (GroupStats τ)) : τ → GroupCount :=
  (parts.map fun part => Pi.single part.type (part.counts : GroupCount)).sum

@[simp] theorem Groups.counts_empty : Groups.counts (∅ : Groups τ) = 0 := rfl

@[simp] theorem partCounts_nil : partCounts ([] : List (GroupStats τ)) = 0 := rfl

theorem partCounts_append (parts parts' : List (GroupStats τ)) :
    partCounts (parts ++ parts') = partCounts parts + partCounts parts' := by
  unfold partCounts
  rw [List.map_append, List.sum_append]

theorem partCounts_singleton (part : GroupStats τ) :
    partCounts [part] = Pi.single part.type (part.counts : GroupCount) := List.sum_singleton

theorem Groups.counts_some {groups : Groups τ} {stats : GroupStats τ} {type : τ}
    (h : groups.byType.lookup type = some stats) : groups.counts type = (stats.counts : GroupCount) := by
  rw [Groups.counts, h]
  rfl

theorem Groups.counts_congr {groups groups' : Groups τ} {type : τ}
    (h : groups.byType.lookup type = groups'.byType.lookup type) :
    groups.counts type = groups'.counts type := by
  rw [Groups.counts, Groups.counts, h]

section

variable {groups : Groups τ} {part stats : GroupStats τ} {type : τ}

/-- `AddPlatform` and `AddBrowser` leave the other groups alone. -/
theorem lookup_addGroup_ne (h : type ≠ part.type) :
    (addGroup groups part.type part.views part.partViews).byType.lookup type =
      groups.byType.lookup type := by
  unfold addGroup
  split
  · rename_i stats hlookup
    exact AList.lookup_insert_ne (groups.keyed part.type stats hlookup ▸ h)
  · exact AList.lookup_insert_ne h

theorem lookup_addGroup_some (h : groups.byType.lookup part.type = some stats) :
    (addGroup groups part.type part.views part.partViews).byType.lookup part.type =
      some { stats with
        views := toInt32 (stats.views + part.views)
        partViews := stats.partViews.merge part.partViews } := by
  have hkey : stats.type = part.type := groups.keyed part.type stats h
  unfold addGroup
  rw [h, ← hkey]
  exact AList.lookup_insert _

theorem lookup_addGroup_none (h : groups.byType.lookup part.type = none) :
    (addGroup groups part.type part.views part.partViews).byType.lookup part.type = some part := by
  unfold addGroup
  rw [h]
  exact AList.lookup_insert _

end

theorem counts_addGroup (groups : Groups τ) (part : GroupStats τ) :
    (addGroup groups part.type part.views part.partViews).counts =
      groups.counts + partCounts [part] := by
  funext type
  rw [partCounts_singleton, Pi.add_apply]
  by_cases htype : type = part.type
  · subst htype
    rw [Pi.single_eq_same]
    cases hlookup : groups.byType.lookup part.type with
    | none =>
      have hzero : groups.counts part.type = 0 := by
        rw [Groups.counts, hlookup]
        rfl
      rw [Groups.counts_some (lookup_addGroup_none hlookup), hzero, zero_add]
    | some stats =>
      rw [Groups.counts_some (lookup_addGroup_some hlookup), Groups.counts_some hlookup,
        GroupStats.counts, Dictionary.counts_merge]
      rfl
  · rw [Groups.counts_congr (lookup_addGroup_ne htype), Pi.single_eq_of_ne htype, add_zero]

/-- Groups that are added one after the other. -/
def addGroups (groups : Groups τ) (parts : List (GroupStats τ)) : Groups τ :=
  parts.foldl (fun groups part => addGroup groups part.type part.views part.partViews) groups

theorem addGroups_append (groups : Groups τ) (parts parts' : List (GroupStats τ)) :
    addGroups groups (parts ++ parts') = addGroups (addGroups groups parts) parts' := List.foldl_append

theorem counts_addGroups (groups : Groups τ) (parts : List (GroupStats τ)) :
    (addGroups groups parts).counts = groups.counts + partCounts parts := by
  induction parts generalizing groups with
  | nil => rw [partCounts_nil, add_zero]; rfl
  | cons part parts ih =>
    rw [show part :: parts = [part] ++ parts from rfl, addGroups_append, ih, partCounts_append,
      ← add_assoc]
    exact congrArg (· + partCounts parts) (counts_addGroup groups part)

/-- The views of the groups of one type. -/
def viewsSum (parts : List (GroupStats τ)) (type : τ) : ℤ :=
  (parts.map fun part => if part.type = type then part.views else 0).sum

@[simp] theorem viewsSum_nil (type : τ) : viewsSum ([] : List (GroupStats τ)) type = 0 := rfl

@[simp] theorem viewsSum_cons (part : GroupStats τ) (parts : List (GroupStats τ)) (type : τ) :
    viewsSum (part :: parts) type = (if part.type = type then part.views else 0) + viewsSum parts type :=
  List.sum_cons

@[simp] theorem viewsSum_append (parts parts' : List (GroupStats τ)) (type : τ) :
    viewsSum (parts ++ parts') type = viewsSum parts type + viewsSum parts' type := by
  unfold viewsSum
  rw [List.map_append, List.sum_append]

end

/-! ## Reading a row -/

/-- The arguments of a call of `AddPlatform` or `AddBrowser`, if there is one, and the entries
    that stay. -/
def groupPart {τ : Type} (select : String → Exec (Option String)) (type : τ) (views : ℤ)
    (entries : Dictionary String ℤ) : Exec (List (GroupStats τ) × Dictionary String ℤ) :=
  if views = 0 then .ret ([], entries)
  else do
    let (taken, entries) ← takeEntries select entries
    return ([⟨type, views, taken⟩], entries)

theorem groupPart_eq_ret_iff {τ : Type} {select : String → Exec (Option String)} {type : τ} {views : ℤ}
    {entries entries' : Dictionary String ℤ} {parts : List (GroupStats τ)} :
    groupPart select type views entries = .ret (parts, entries') ↔
      (views = 0 ∧ parts = [] ∧ entries' = entries) ∨
        (views ≠ 0 ∧ ∃ taken, takeEntries select entries = .ret (taken, entries') ∧
          parts = [⟨type, views, taken⟩]) := by
  unfold groupPart
  split_ifs with h
  · simp [h, eq_comm]
  · rw [Exec.bind_eq_ret_iff]
    constructor
    · rintro ⟨dicts, htake, hret⟩
      obtain ⟨rfl, rfl⟩ := Prod.mk.inj (Exec.ret.inj hret)
      exact .inr ⟨h, dicts.1, htake, rfl⟩
    · rintro (⟨hviews, -⟩ | ⟨-, taken, htake, rfl⟩)
      · exact absurd hviews h
      · exact ⟨(taken, entries'), htake, rfl⟩

theorem mem_groupPart {τ : Type} {select : String → Exec (Option String)} {type : τ} {views : ℤ}
    {entries entries' : Dictionary String ℤ} {parts : List (GroupStats τ)}
    (h : groupPart select type views entries = .ret (parts, entries')) {part : GroupStats τ}
    (hpart : part ∈ parts) : part.type = type ∧ part.views = views := by
  rcases groupPart_eq_ret_iff.mp h with ⟨-, rfl, -⟩ | ⟨-, taken, -, rfl⟩
  · cases hpart
  · rw [List.mem_singleton.mp hpart]
    exact ⟨rfl, rfl⟩

theorem viewsSum_groupPart {τ : Type} [DecidableEq τ] {select : String → Exec (Option String)} {type : τ}
    {views : ℤ} {entries entries' : Dictionary String ℤ} {parts : List (GroupStats τ)}
    (h : groupPart select type views entries = .ret (parts, entries')) (t : τ) :
    viewsSum parts t = if type = t then views else 0 := by
  rcases groupPart_eq_ret_iff.mp h with ⟨hviews, rfl, -⟩ | ⟨hviews, taken, -, rfl⟩
  · rw [viewsSum_nil, hviews, ite_self]
  · rw [viewsSum_cons, viewsSum_nil, add_zero]

/-- The calls of `AddPlatform` for a row. -/
def platformParts (env : Globalization) (visit : Visit) : Exec (List (GroupStats PlatformType)) := do
  let (windows, platforms) ←
    groupPart (selectVariant (isWindows env)) .windows visit.windows visit.platforms
  let (linux, platforms) ← groupPart (selectVariant isLinux) .linux visit.linux platforms
  let (macOs, platforms) ← groupPart (selectVariant isMacOs) .macOs visit.macOs platforms
  let (other, _) ← groupPart (selectVariant none) .other visit.otherPlatform platforms
  return windows ++ linux ++ [⟨.ios, visit.ios, ∅⟩] ++ macOs ++ [⟨.android, visit.android, ∅⟩] ++ other

/-- The body of the loop over the named browsers. -/
def familyPart (parts : List (GroupStats BrowserType) × Dictionary String ℤ)
    (family : BrowserType × ℤ × String) : Exec (List (GroupStats BrowserType) × Dictionary String ℤ) := do
  let (part, browsers) ← groupPart (selectVersion (some family.2.2)) family.1 family.2.1 parts.2
  return (parts.1 ++ part, browsers)

/-- The calls of `AddBrowser` for a row. -/
def browserParts (visit : Visit) : Exec (List (GroupStats BrowserType)) := do
  let (parts, browsers) ← visit.families.foldlM familyPart ([], visit.browsers)
  let (other, _) ← groupPart (selectVersion none) .other visit.otherBrowser browsers
  return parts ++ other

/-- `AddPlatform` for each part. -/
def ViewStats.addPlatformParts (stats : ViewStats) (parts : List (GroupStats PlatformType)) : ViewStats :=
  { stats with platforms := addGroups stats.platforms parts }

/-- `AddBrowser` for each part. -/
def ViewStats.addBrowserParts (stats : ViewStats) (parts : List (GroupStats BrowserType)) : ViewStats :=
  { stats with browsers := addGroups stats.browsers parts }

theorem ViewStats.addPlatformParts_append (stats : ViewStats) (parts parts' : List (GroupStats PlatformType)) :
    stats.addPlatformParts (parts ++ parts') = (stats.addPlatformParts parts).addPlatformParts parts' :=
  congrArg (fun groups => { stats with platforms := groups }) (addGroups_append stats.platforms parts parts')

theorem ViewStats.addBrowserParts_append (stats : ViewStats) (parts parts' : List (GroupStats BrowserType)) :
    stats.addBrowserParts (parts ++ parts') = (stats.addBrowserParts parts).addBrowserParts parts' :=
  congrArg (fun groups => { stats with browsers := groups }) (addGroups_append stats.browsers parts parts')

theorem addPlatformVariants_eq (type : PlatformType) (platformViews : ℤ)
    (isPlatform : Option (String → Bool)) (stats : ViewStats) (platforms : Dictionary String ℤ) :
    addPlatformVariants type platformViews isPlatform stats platforms = do
      let (parts, platforms) ← groupPart (selectVariant isPlatform) type platformViews platforms
      return (stats.addPlatformParts parts, platforms) := by
  unfold addPlatformVariants groupPart
  split_ifs
  · rfl
  · rw [bind_assoc]
    rfl

theorem addBrowser_eq (type : BrowserType) (browserViews : ℤ) (browserName : Option String)
    (stats : ViewStats) (browsers : Dictionary String ℤ) :
    addBrowser type browserViews browserName stats browsers = do
      let (parts, browsers) ← groupPart (selectVersion browserName) type browserViews browsers
      return (stats.addBrowserParts parts, browsers) := by
  unfold addBrowser groupPart
  split_ifs
  · rfl
  · rw [bind_assoc]
    rfl

theorem addPlatforms_eq (env : Globalization) (stats : ViewStats) (visit : Visit) :
    addPlatforms env stats visit = stats.addPlatformParts <$> platformParts env visit := by
  simp only [addPlatforms, platformParts, addPlatformVariants_eq, map_eq_pure_bind, bind_assoc, pure_bind,
    ViewStats.addPlatformParts_append]
  rfl

/-- The loop over the named browsers. -/
theorem foldlM_familyPart (families : List (BrowserType × ℤ × String)) (stats : ViewStats)
    (parts : List (GroupStats BrowserType)) (browsers : Dictionary String ℤ) :
    families.foldlM (fun (stats, browsers) (type, views, name) =>
        addBrowser type views (some name) stats browsers) (stats.addBrowserParts parts, browsers) =
      (Prod.map stats.addBrowserParts id) <$> families.foldlM familyPart (parts, browsers) := by
  induction families generalizing parts browsers with
  | nil => rfl
  | cons family families ih =>
    obtain ⟨type, views, name⟩ := family
    rw [List.foldlM_cons, List.foldlM_cons, familyPart]
    show (addBrowser type views (some name) (stats.addBrowserParts parts) browsers >>= _) = _
    rw [addBrowser_eq, bind_assoc, bind_assoc, map_bind]
    congr 1
    funext part
    rw [pure_bind, pure_bind, ← ViewStats.addBrowserParts_append]
    exact ih (parts ++ part.1) part.2

theorem addBrowsers_eq (stats : ViewStats) (visit : Visit) :
    addBrowsers stats visit = stats.addBrowserParts <$> browserParts visit := by
  have hloop := foldlM_familyPart visit.families stats [] visit.browsers
  rw [show stats.addBrowserParts [] = stats from rfl] at hloop
  rw [addBrowsers, hloop, browserParts]
  simp only [addBrowser_eq, map_eq_pure_bind, bind_assoc, pure_bind, Prod.map,
    ViewStats.addBrowserParts_append]
  rfl

/-! ## Adding a row -/

/-- What a row adds to `Types`: `BrowserType` for all three types. -/
def typeCounts (visit : Visit) : UserAgentType → Count :=
  (if visit.browserType > 0 then Dictionary.single .browser visit.browserType else 0) +
    (if visit.robotType > 0 then Dictionary.single .robot visit.browserType else 0) +
    (if visit.unknownType > 0 then Dictionary.single .unknown visit.browserType else 0)

/-- The groups of a row that can be read. -/
def platformPartsOf (env : Globalization) (visit : Visit) : List (GroupStats PlatformType) :=
  (platformParts env visit).getD []

/-- The parts that a row gives to the browsers, none if `AddBrowser` throws. -/
def browserPartsOf (visit : Visit) : List (GroupStats BrowserType) :=
  (browserParts visit).getD []

theorem counts_addTypes (stats : ViewStats) (visit : Visit) :
    (addTypes stats visit).types.counts = stats.types.counts + typeCounts visit := by
  unfold addTypes typeCounts ViewStats.addType
  split_ifs <;> simp [Dictionary.counts_addOrSum, add_assoc]

/-- What a row adds to a window. -/
structure Added (env : Globalization) (visit : Visit) (stats stats' : ViewStats) : Prop where
  types : stats'.types.counts = stats.types.counts + typeCounts visit
  platforms : stats'.platforms = addGroups stats.platforms (platformPartsOf env visit)
  browsers : stats'.browsers = addGroups stats.browsers (browserPartsOf visit)
  mobileDeviceTypes :
    stats'.mobileDeviceTypes.counts = stats.mobileDeviceTypes.counts + visit.mobileDeviceTypes.counts
  countries : stats'.countries.counts = stats.countries.counts + visit.countries.counts
  referrers : stats'.referrers.counts = stats.referrers.counts + visit.referrers.counts

theorem addVisit_adds {env : Globalization} {stats stats' : ViewStats} {visit : Visit}
    (h : addVisit env stats visit = .ret stats') : Added env visit stats stats' := by
  simp only [addVisit, addPlatforms_eq, addBrowsers_eq, Exec.bind_eq_ret_iff, Exec.map_eq_ret_iff,
    Exec.pure_eq, Exec.ret.injEq] at h
  obtain ⟨_, ⟨platforms, hplatforms, rfl⟩, _, ⟨browsers, hbrowsers, rfl⟩, rfl⟩ := h
  obtain ⟨types, htypes⟩ := addTypes_frame stats visit
  have htypeCounts := counts_addTypes stats visit
  rw [htypes] at htypeCounts ⊢
  rw [addMobileDeviceTypes_eq, addCountries_eq, addReferrers_eq]
  constructor
  · exact htypeCounts
  · rw [platformPartsOf, hplatforms]
    rfl
  · rw [browserPartsOf, hbrowsers]
    rfl
  · exact Dictionary.counts_merge _ _
  · exact Dictionary.counts_merge _ _
  · exact Dictionary.counts_merge _ _

/-! ## Adding all rows -/

section

variable {env : Globalization} {rows : List Visit} {stats : ViewStats}

/-- What every row adds to, all rows add to. -/
theorem foldl_addVisits {α : Type} (g : ViewStats → α) (f : α → Visit → α)
    (hadd : ∀ {visit stats stats'}, Added env visit stats stats' → g stats' = f (g stats) visit)
    (h : addVisits env rows = .ret stats) : g stats = rows.foldl f (g .empty) := by
  have hloop : ∀ (rows : List Visit) (start : ViewStats),
      rows.foldlM (addVisit env) start = .ret stats → g stats = rows.foldl f (g start) := by
    intro rows
    induction rows with
    | nil =>
      intro start h
      obtain rfl := Exec.ret.inj h
      rfl
    | cons visit rows ih =>
      intro start h
      obtain ⟨start', hvisit, hrows⟩ := Exec.foldlM_cons_eq_ret_iff.mp h
      rw [ih start' hrows, hadd (addVisit_adds hvisit)]
      rfl
  exact hloop rows .empty h

theorem sum_addVisits {M : Type} [AddCommMonoid M] (g : ViewStats → M) (c : Visit → M)
    (hempty : g .empty = 0)
    (hadd : ∀ {visit stats stats'}, Added env visit stats stats' → g stats' = g stats + c visit)
    (h : addVisits env rows = .ret stats) : g stats = (rows.map c).sum := by
  rw [foldl_addVisits g (fun a visit => a + c visit) hadd h, hempty, List.sum_eq_foldl,
    List.foldl_map]

theorem types_addVisits (h : addVisits env rows = .ret stats) :
    stats.types.counts = (rows.map typeCounts).sum :=
  sum_addVisits (fun stats => stats.types.counts) typeCounts rfl Added.types h

theorem mobileDeviceTypes_addVisits (h : addVisits env rows = .ret stats) :
    stats.mobileDeviceTypes.counts = (rows.map fun visit => visit.mobileDeviceTypes.counts).sum :=
  sum_addVisits (fun stats => stats.mobileDeviceTypes.counts)
    (fun visit => visit.mobileDeviceTypes.counts) rfl Added.mobileDeviceTypes h

theorem countries_addVisits (h : addVisits env rows = .ret stats) :
    stats.countries.counts = (rows.map fun visit => visit.countries.counts).sum :=
  sum_addVisits (fun stats => stats.countries.counts) (fun visit => visit.countries.counts) rfl
    Added.countries h

theorem referrers_addVisits (h : addVisits env rows = .ret stats) :
    stats.referrers.counts = (rows.map fun visit => visit.referrers.counts).sum :=
  sum_addVisits (fun stats => stats.referrers.counts) (fun visit => visit.referrers.counts) rfl
    Added.referrers h

/-- `Platforms` and `Browsers` accumulate the groups of all rows. -/
theorem groups_addVisits (h : addVisits env rows = .ret stats) :
    stats.platforms = addGroups ∅ (rows.flatMap (platformPartsOf env)) ∧
      stats.browsers = addGroups ∅ (rows.flatMap browserPartsOf) := by
  constructor
  · rw [foldl_addVisits ViewStats.platforms
      (fun groups visit => addGroups groups (platformPartsOf env visit)) Added.platforms h]
    exact List.foldl_flatMap.symm
  · rw [foldl_addVisits ViewStats.browsers
      (fun groups visit => addGroups groups (browserPartsOf visit)) Added.browsers h]
    exact List.foldl_flatMap.symm

end

end Shortener.Stats
