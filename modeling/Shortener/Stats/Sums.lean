import Shortener.Stats.Parts
import Shortener.Stats.Reader
import Shortener.Stats.Reply

/-!
# The numbers of a window

Each number of a window is the sum, as an `int`, of a column or of a JSON entry over the rows
that the window shows. `Types` is left to `Stats/Types.lean`.

* `read_addVisits`: one number.
* `addVisits_same`: the order of the rows does not matter, for all of a window.
* `convert_exact`: exact sums, in any order, that grow with the window.
-/

namespace Shortener.Stats

open Shortener.DotNet

/-! ## Windows -/

/-- The windows of `UrlStats`. -/
inductive Period
  | day
  | week
  | month
  | allTime
  deriving DecidableEq, Repr

/-- The row is in the window. -/
def Period.Shows (now : ℤ) (visit : Visit) : Period → Prop
  | .day => visit.IsWithin (days 1) now
  | .week => visit.IsWithin (days 7) now
  | .month => visit.IsWithin (days 30) now
  | .allTime => True

instance (period : Period) (now : ℤ) (visit : Visit) : Decidable (period.Shows now visit) :=
  match period with
  | .day => inferInstanceAs (Decidable (visit.IsWithin (days 1) now))
  | .week => inferInstanceAs (Decidable (visit.IsWithin (days 7) now))
  | .month => inferInstanceAs (Decidable (visit.IsWithin (days 30) now))
  | .allTime => inferInstanceAs (Decidable True)

/-- The rows that the window shows. -/
def Period.rows (period : Period) (now : ℤ) (visits : List Visit) : List Visit :=
  visits.filter fun visit => period.Shows now visit

/-- The statistics of the window. -/
def UrlStats.window (stats : UrlStats) : Period → ViewStats
  | .day => stats.lastDay
  | .week => stats.lastWeek
  | .month => stats.lastMonth
  | .allTime => stats.allTime

section

variable {env : Globalization} {shardId now : ℤ} {url : Url} {stats : UrlStats}

theorem Period.rows_allTime (now : ℤ) (visits : List Visit) : Period.allTime.rows now visits = visits :=
  List.filter_eq_self.mpr fun _ _ => decide_eq_true trivial

theorem convert_window (h : convert env shardId now url = .ret stats) (period : Period) :
    addVisits env (period.rows now url.visits) = .ret (stats.window period) := by
  obtain ⟨-, -, -, hday, hweek, hmonth, hall⟩ := convert_eq_ret_iff.mp h
  cases period with
  | day => exact hday
  | week => exact hweek
  | month => exact hmonth
  | allTime => rwa [Period.rows_allTime]

/-- A longer window shows more rows. -/
theorem Period.shows_longer {visit : Visit} :
    (Period.day.Shows now visit → Period.week.Shows now visit) ∧
      (Period.week.Shows now visit → Period.month.Shows now visit) ∧
      (Period.month.Shows now visit → Period.allTime.Shows now visit) := by
  refine ⟨?_, ?_, fun _ => trivial⟩
  · unfold Period.Shows Visit.IsWithin days hour
    omega
  · unfold Period.Shows Visit.IsWithin days hour
    omega

end

/-! ## Numbers -/

/-- A number of a `ViewStats`. -/
inductive Number
  | views
  | platform (type : PlatformType)
  | browser (type : BrowserType)
  | mobileDeviceType (name : String)
  | country (name : String)
  | referrer (name : String)
  deriving DecidableEq, Repr

/-- The column of a platform. -/
def Visit.platformColumn (visit : Visit) : PlatformType → ℤ
  | .windows => visit.windows
  | .linux => visit.linux
  | .ios => visit.ios
  | .macOs => visit.macOs
  | .android => visit.android
  | .other => visit.otherPlatform

/-- The column of a browser. -/
def Visit.browserColumn (visit : Visit) : BrowserType → ℤ
  | .chrome => visit.chrome
  | .edge => visit.edge
  | .firefox => visit.firefox
  | .internetExplorer => visit.internetExplorer
  | .opera => visit.opera
  | .safari => visit.safari
  | .other => visit.otherBrowser

/-- The column or the JSON entry that is summed up. -/
def Number.column (visit : Visit) : Number → ℤ
  | .views => visit.total
  | .platform type => visit.platformColumn type
  | .browser type => visit.browserColumn type
  | .mobileDeviceType name => (visit.mobileDeviceTypes.lookup name).getD 0
  | .country name => (visit.countries.lookup name).getD 0
  | .referrer name => (visit.referrers.lookup name).getD 0

/-- The number in a window, 0 if absent. -/
def Number.read (stats : ViewStats) : Number → ℤ
  | .views => stats.views
  | .platform type => ((stats.platforms.byType.lookup type).map GroupStats.views).getD 0
  | .browser type => ((stats.browsers.byType.lookup type).map GroupStats.views).getD 0
  | .mobileDeviceType name => (stats.mobileDeviceTypes.lookup name).getD 0
  | .country name => (stats.countries.lookup name).getD 0
  | .referrer name => (stats.referrers.lookup name).getD 0

/-- The sum of a column over rows. -/
def Number.sum (number : Number) (rows : List Visit) : ℤ := (rows.map number.column).sum

/-- The columns are `INT`s and the members of the objects `int`s. -/
def Visit.Ints (visit : Visit) : Prop := ∀ number : Number, IsInt32 (number.column visit)

/-! ### Views of groups -/

section

variable {τ : Type} [DecidableEq τ]

/-- The views of a group, 0 if absent. -/
def Groups.viewsOf (groups : Groups τ) (type : τ) : ℤ :=
  ((groups.byType.lookup type).map GroupStats.views).getD 0

theorem Groups.viewsOf_some {groups : Groups τ} {stats : GroupStats τ} {type : τ}
    (h : groups.byType.lookup type = some stats) : groups.viewsOf type = stats.views := by
  rw [Groups.viewsOf, h]
  rfl

theorem Groups.viewsOf_none {groups : Groups τ} {type : τ} (h : groups.byType.lookup type = none) :
    groups.viewsOf type = 0 := by
  rw [Groups.viewsOf, h]
  rfl

theorem viewsOf_addGroup {groups : Groups τ} {part : GroupStats τ} {type : τ}
    (hgroups : IsInt32 (groups.viewsOf type)) (hpart : IsInt32 part.views) :
    (addGroup groups part.type part.views part.partViews).viewsOf type =
      toInt32 (groups.viewsOf type + if part.type = type then part.views else 0) := by
  by_cases htype : part.type = type
  · subst htype
    rw [if_pos rfl]
    cases hlookup : groups.byType.lookup part.type with
    | none =>
      rw [Groups.viewsOf_some (lookup_addGroup_none hlookup), Groups.viewsOf_none hlookup, zero_add,
        toInt32_of_isInt32 hpart]
    | some stats =>
      rw [Groups.viewsOf_some (lookup_addGroup_some hlookup), Groups.viewsOf_some hlookup]
  · rw [if_neg htype, add_zero, toInt32_of_isInt32 hgroups, Groups.viewsOf, Groups.viewsOf,
      lookup_addGroup_ne (Ne.symm htype)]

theorem viewsOf_addGroups {groups : Groups τ} {parts : List (GroupStats τ)} {type : τ}
    (hgroups : IsInt32 (groups.viewsOf type)) (hparts : ∀ part ∈ parts, IsInt32 part.views) :
    (addGroups groups parts).viewsOf type = toInt32 (groups.viewsOf type + viewsSum parts type) := by
  induction parts generalizing groups with
  | nil =>
    rw [viewsSum_nil, add_zero, toInt32_of_isInt32 hgroups]
    rfl
  | cons part parts ih =>
    obtain ⟨hpart, hrest⟩ := List.forall_mem_cons.mp hparts
    have hadd := viewsOf_addGroup hgroups hpart
    have hint : IsInt32 ((addGroup groups part.type part.views part.partViews).viewsOf type) := by
      rw [hadd]
      exact isInt32_toInt32 _
    rw [viewsSum_cons, show addGroups groups (part :: parts) =
      addGroups (addGroup groups part.type part.views part.partViews) parts from rfl, ih hint hrest,
      hadd, toInt32_add_toInt32, add_assoc]

end

/-! ### A row -/

/-- The groups of a row have the columns of the row as views. -/
theorem platformPartsOf_views {env : Globalization} {visit : Visit}
    (h : (platformParts env visit).Returns) :
    (∀ part ∈ platformPartsOf env visit, part.views = visit.platformColumn part.type) ∧
      ∀ type, viewsSum (platformPartsOf env visit) type = visit.platformColumn type := by
  obtain ⟨parts, hparts⟩ := h
  rw [platformPartsOf, hparts, Exec.getD_ret]
  simp only [platformParts, Exec.bind_eq_ret_iff, Exec.pure_eq, Exec.ret.injEq, Prod.exists] at hparts
  obtain ⟨windows, _, hwindows, linux, _, hlinux, macOs, _, hmacOs, other, _, hother, rfl⟩ := hparts
  constructor
  · intro part hpart
    simp only [List.mem_append, List.mem_singleton] at hpart
    rcases hpart with ((((hpart | hpart) | rfl) | hpart) | rfl) | hpart
    · obtain ⟨htype, hviews⟩ := mem_groupPart hwindows hpart
      rw [htype, hviews]
      rfl
    · obtain ⟨htype, hviews⟩ := mem_groupPart hlinux hpart
      rw [htype, hviews]
      rfl
    · rfl
    · obtain ⟨htype, hviews⟩ := mem_groupPart hmacOs hpart
      rw [htype, hviews]
      rfl
    · rfl
    · obtain ⟨htype, hviews⟩ := mem_groupPart hother hpart
      rw [htype, hviews]
      rfl
  · intro type
    simp only [viewsSum_append, viewsSum_cons, viewsSum_nil, viewsSum_groupPart hwindows,
      viewsSum_groupPart hlinux, viewsSum_groupPart hmacOs, viewsSum_groupPart hother]
    cases type <;> simp [Visit.platformColumn]

/-- The loop over the named browsers. -/
theorem familyParts_views {families : List (BrowserType × ℤ × String)}
    {parts parts' : List (GroupStats BrowserType)} {browsers browsers' : Dictionary String ℤ}
    (h : families.foldlM familyPart (parts, browsers) = .ret (parts', browsers')) :
    (∀ part ∈ parts', part ∈ parts ∨
      ∃ family ∈ families, part.type = family.1 ∧ part.views = family.2.1) ∧
    ∀ type, viewsSum parts' type = viewsSum parts type +
      (families.map fun family => if family.1 = type then family.2.1 else 0).sum := by
  induction families generalizing parts browsers with
  | nil =>
    obtain ⟨rfl, -⟩ := Prod.mk.inj (Exec.ret.inj h)
    exact ⟨fun part hpart => .inl hpart, fun type => (add_zero _).symm⟩
  | cons family families ih =>
    obtain ⟨⟨parts₁, browsers₁⟩, hfamily, hrest⟩ := Exec.foldlM_cons_eq_ret_iff.mp h
    rw [familyPart, Exec.bind_eq_ret_iff] at hfamily
    obtain ⟨⟨new, _⟩, hnew, hret⟩ := hfamily
    obtain ⟨rfl, -⟩ := Prod.mk.inj (Exec.ret.inj hret)
    obtain ⟨hviews, hsum⟩ := ih hrest
    constructor
    · intro part hpart
      rcases hviews part hpart with hpart | ⟨family', hmem, hfamily'⟩
      · rcases List.mem_append.mp hpart with hpart | hpart
        · exact .inl hpart
        · exact .inr ⟨family, List.mem_cons_self, mem_groupPart hnew hpart⟩
      · exact .inr ⟨family', List.mem_cons_of_mem _ hmem, hfamily'⟩
    · intro type
      rw [hsum, viewsSum_append, viewsSum_groupPart hnew, List.map_cons, List.sum_cons, add_assoc]

theorem browserPartsOf_views {visit : Visit} (h : (browserParts visit).Returns) :
    (∀ part ∈ browserPartsOf visit, part.views = visit.browserColumn part.type) ∧
      ∀ type, viewsSum (browserPartsOf visit) type = visit.browserColumn type := by
  obtain ⟨parts, hparts⟩ := h
  have hother := hparts
  simp only [browserParts, Exec.bind_eq_ret_iff, Exec.pure_eq, Exec.ret.injEq, Prod.exists] at hother
  obtain ⟨named, _, hnamed, other, _, hother, rfl⟩ := hother
  have hparts : browserPartsOf visit = named ++ other := by
    rw [browserPartsOf, hparts, Exec.getD_ret]
  obtain ⟨hviews, hsum⟩ := familyParts_views hnamed
  rw [hparts]
  constructor
  · intro part hpart
    rcases List.mem_append.mp hpart with hpart | hpart
    · rcases hviews part hpart with hnil | ⟨family, hfamily, htype, hpartViews⟩
      · cases hnil
      · rw [htype, hpartViews]
        simp only [Visit.families, List.mem_cons, List.not_mem_nil, or_false] at hfamily
        rcases hfamily with rfl | rfl | rfl | rfl | rfl | rfl <;> rfl
    · obtain ⟨htype, hpartViews⟩ := mem_groupPart hother hpart
      rw [htype, hpartViews]
      rfl
  · intro type
    rw [viewsSum_append, viewsSum_groupPart hother, hsum, viewsSum_nil, zero_add]
    cases type <;> simp [Visit.families, Visit.browserColumn]

/-! ### All rows -/

section

variable {env : Globalization} {rows : List Visit} {stats : ViewStats}

/-- Rows that can be added can be read. -/
theorem parts_returns (h : addVisits env rows = .ret stats) {visit : Visit} (hvisit : visit ∈ rows) :
    (platformParts env visit).Returns ∧ (browserParts visit).Returns := by
  obtain ⟨stats', hstats'⟩ := (addVisits_returns_iff_rows env rows).mp ⟨stats, h⟩ visit hvisit
  simp only [addVisit, addPlatforms_eq, addBrowsers_eq, Exec.bind_eq_ret_iff, Exec.map_eq_ret_iff]
    at hstats'
  obtain ⟨_, ⟨platforms, hplatforms, -⟩, _, ⟨browsers, hbrowsers, -⟩, -⟩ := hstats'
  exact ⟨⟨platforms, hplatforms⟩, ⟨browsers, hbrowsers⟩⟩

theorem viewsSum_flatMap {τ : Type} [DecidableEq τ] {partsOf : Visit → List (GroupStats τ)}
    {column : Visit → τ → ℤ} {type : τ}
    (hsum : ∀ visit ∈ rows, viewsSum (partsOf visit) type = column visit type) :
    viewsSum (rows.flatMap partsOf) type = (rows.map fun visit => column visit type).sum := by
  induction rows with
  | nil => rfl
  | cons visit rows ih =>
    obtain ⟨hvisit, hrest⟩ := List.forall_mem_cons.mp hsum
    rw [List.flatMap_cons, viewsSum_append, hvisit, ih hrest, List.map_cons, List.sum_cons]

/-- The views of the groups that all rows add up to. -/
theorem viewsOf_rows {τ : Type} [DecidableEq τ] {partsOf : Visit → List (GroupStats τ)}
    {column : Visit → τ → ℤ} {type : τ}
    (hviews : ∀ visit ∈ rows, ∀ part ∈ partsOf visit, part.views = column visit part.type)
    (hsum : ∀ visit ∈ rows, viewsSum (partsOf visit) type = column visit type)
    (hints : ∀ visit ∈ rows, ∀ type, IsInt32 (column visit type)) :
    (addGroups ∅ (rows.flatMap partsOf)).viewsOf type =
      toInt32 (rows.map fun visit => column visit type).sum := by
  have hparts : ∀ part ∈ rows.flatMap partsOf, IsInt32 part.views := by
    intro part hpart
    obtain ⟨visit, hvisit, hpart⟩ := List.mem_flatMap.mp hpart
    rw [hviews visit hvisit part hpart]
    exact hints visit hvisit part.type
  have hempty : (∅ : Groups τ).viewsOf type = 0 := Groups.viewsOf_none rfl
  have hint : IsInt32 ((∅ : Groups τ).viewsOf type) := by
    rw [hempty]
    decide
  rw [viewsOf_addGroups hint hparts, hempty, zero_add, viewsSum_flatMap hsum]

/-- The entries of the dictionaries that all rows add up to. -/
theorem lookup_rows {d : Dictionary String ℤ} {column : Visit → Dictionary String ℤ} {name : String}
    (hd : d.counts = (rows.map fun visit => (column visit).counts).sum)
    (hints : ∀ visit ∈ rows, IsInt32 (((column visit).lookup name).getD 0)) :
    (d.lookup name).getD 0 =
      toInt32 (rows.map fun visit => ((column visit).lookup name).getD 0).sum := by
  have hints' : ∀ c ∈ rows.map fun visit => (column visit).counts name, IsInt32 c.value := by
    intro c hc
    obtain ⟨visit, hvisit, rfl⟩ := List.mem_map.mp hc
    rw [Dictionary.value_counts]
    exact hints visit hvisit
  have hcounts : d.counts name = (rows.map fun visit => (column visit).counts name).sum := by
    rw [hd, Pi.list_sum_apply, List.map_map]
    rfl
  have hvalues : (rows.map fun visit => ((column visit).counts name).value) =
      rows.map fun visit => ((column visit).lookup name).getD 0 :=
    List.map_congr_left fun visit _ => Dictionary.value_counts (column visit) name
  rw [← Dictionary.value_counts, hcounts, Count.value_sum hints', List.map_map, ← hvalues]
  rfl

/-- **A number is a sum, as an `int`.** -/
theorem read_addVisits (h : addVisits env rows = .ret stats) (hints : ∀ visit ∈ rows, visit.Ints)
    (number : Number) : number.read stats = toInt32 (number.sum rows) := by
  obtain ⟨hplatforms, hbrowsers⟩ := groups_addVisits h
  have hreturns : ∀ visit ∈ rows, (platformParts env visit).Returns ∧ (browserParts visit).Returns :=
    fun _ hvisit => parts_returns h hvisit
  cases number with
  | views => exact views_addVisits h
  | platform type =>
    show stats.platforms.viewsOf type = _
    rw [hplatforms]
    exact viewsOf_rows (fun visit hvisit => (platformPartsOf_views (hreturns visit hvisit).1).1)
      (fun visit hvisit => (platformPartsOf_views (hreturns visit hvisit).1).2 type)
      fun visit hvisit type => hints visit hvisit (.platform type)
  | browser type =>
    show stats.browsers.viewsOf type = _
    rw [hbrowsers]
    exact viewsOf_rows (fun visit hvisit => (browserPartsOf_views (hreturns visit hvisit).2).1)
      (fun visit hvisit => (browserPartsOf_views (hreturns visit hvisit).2).2 type)
      fun visit hvisit type => hints visit hvisit (.browser type)
  | mobileDeviceType name =>
    exact lookup_rows (mobileDeviceTypes_addVisits h)
      fun visit hvisit => hints visit hvisit (.mobileDeviceType name)
  | country name =>
    exact lookup_rows (countries_addVisits h) fun visit hvisit => hints visit hvisit (.country name)
  | referrer name =>
    exact lookup_rows (referrers_addVisits h) fun visit hvisit => hints visit hvisit (.referrer name)

end

/-! ## Order of the rows -/

/-- Groups with equal counts have equal contents. -/
theorem content_of_counts {τ : Type} [DecidableEq τ] {groups groups' : Groups τ}
    (h : groups.counts = groups'.counts) (type : τ) :
    (groups.byType.lookup type).map GroupStats.content =
      (groups'.byType.lookup type).map GroupStats.content := by
  have htype : groups.counts type = groups'.counts type := congrFun h type
  unfold Groups.counts at htype
  cases hlookup : groups.byType.lookup type with
  | none =>
    rw [hlookup] at htype
    cases hlookup' : groups'.byType.lookup type with
    | none => rfl
    | some stats' =>
      rw [hlookup'] at htype
      cases htype
  | some stats =>
    rw [hlookup] at htype
    cases hlookup' : groups'.byType.lookup type with
    | none =>
      rw [hlookup'] at htype
      cases htype
    | some stats' =>
      rw [hlookup'] at htype
      have hcounts : stats.counts = stats'.counts := Option.some.inj htype
      obtain ⟨hviews, hparts⟩ := Prod.mk.inj hcounts
      have hcontent : stats.content = stats'.content := by
        have hpart : ∀ part, stats.partViews.lookup part = stats'.partViews.lookup part :=
          fun part => Dictionary.counts_inj.mp (congrFun hparts part)
        have hvalue : stats.views = stats'.views := congrArg Wrapped.value hviews
        unfold GroupStats.content
        rw [groups.keyed type stats hlookup, groups'.keyed type stats' hlookup', hvalue]
        exact congrArg (fun parts => (type, stats'.views, parts)) (funext hpart)
      exact congrArg some hcontent

theorem counts_addGroups_perm {τ : Type} [DecidableEq τ] {parts parts' : List (GroupStats τ)}
    (h : parts.Perm parts') : (addGroups ∅ parts).counts = (addGroups ∅ parts').counts := by
  rw [counts_addGroups, counts_addGroups, partCounts, partCounts, (h.map _).sum_eq]

/-- The order of the rows does not matter. -/
theorem addVisits_same {env : Globalization} {rows rows' : List Visit} {stats stats' : ViewStats}
    (h : addVisits env rows = .ret stats) (h' : addVisits env rows' = .ret stats')
    (hperm : rows.Perm rows') : stats.Same stats' where
  types type := by
    refine Dictionary.counts_inj.mp (congrFun ?_ type)
    rw [types_addVisits h, types_addVisits h', (hperm.map _).sum_eq]
  platforms := by
    apply content_of_counts
    rw [(groups_addVisits h).1, (groups_addVisits h').1]
    exact counts_addGroups_perm (hperm.flatMap_right _)
  browsers := by
    apply content_of_counts
    rw [(groups_addVisits h).2, (groups_addVisits h').2]
    exact counts_addGroups_perm (hperm.flatMap_right _)
  mobileDeviceTypes name := by
    refine Dictionary.counts_inj.mp (congrFun ?_ name)
    rw [mobileDeviceTypes_addVisits h, mobileDeviceTypes_addVisits h', (hperm.map _).sum_eq]
  countries name := by
    refine Dictionary.counts_inj.mp (congrFun ?_ name)
    rw [countries_addVisits h, countries_addVisits h', (hperm.map _).sum_eq]
  referrers name := by
    refine Dictionary.counts_inj.mp (congrFun ?_ name)
    rw [referrers_addVisits h, referrers_addVisits h', (hperm.map _).sum_eq]
  views := by rw [views_addVisits h, views_addVisits h', (hperm.map _).sum_eq]

theorem convert_same {env : Globalization} {shardId now : ℤ} {url : Url} {stats : UrlStats}
    (h : convert env shardId now url = .ret stats) {rows : List Visit} (hperm : rows.Perm url.visits) :
    ∃ stats', convert env shardId now { url with visits := rows } = .ret stats' ∧
      stats'.Same stats := by
  have hreturns : (convert env shardId now { url with visits := rows }).Returns := by
    obtain ⟨hid, hrows⟩ := (convert_returns_iff_rows env shardId now url).mp ⟨stats, h⟩
    exact (convert_returns_iff_rows env shardId now _).mpr
      ⟨hid, fun visit hvisit => hrows visit (hperm.subset hvisit)⟩
  obtain ⟨stats', h'⟩ := hreturns
  have hwindow : ∀ period : Period, (stats'.window period).Same (stats.window period) :=
    fun period => addVisits_same (convert_window h' period) (convert_window h period)
      (hperm.filter _)
  obtain ⟨hid, hurl, htotal, -⟩ := convert_eq_ret_iff.mp h
  obtain ⟨hid', hurl', htotal', -⟩ := convert_eq_ret_iff.mp h'
  exact ⟨stats', h', Exec.ret.inj (hid'.symm.trans hid), hurl'.trans hurl.symm,
    htotal'.trans htotal.symm, hwindow .day, hwindow .week, hwindow .month, hwindow .allTime⟩

/-! ## Longer windows -/

theorem Number.sum_mono {number : Number} {visits : List Visit}
    (hnonneg : ∀ visit ∈ visits, 0 ≤ number.column visit) {p q : Visit → Bool}
    (hpq : ∀ visit, p visit → q visit) :
    number.sum (visits.filter p) ≤ number.sum (visits.filter q) := by
  have hsub : (visits.filter p).Sublist (visits.filter q) := List.monotone_filter_right visits hpq
  refine (hsub.map _).sum_le_sum ?_
  intro value hvalue
  obtain ⟨visit, hvisit, rfl⟩ := List.mem_map.mp hvalue
  exact hnonneg visit (List.mem_of_mem_filter hvisit)

/-- Sums of non-negative numbers that stay below `2^31`. -/
theorem Number.read_eq_sum {env : Globalization} {shardId now : ℤ} {url : Url} {stats : UrlStats}
    (hints : ∀ visit ∈ url.visits, visit.Ints) (h : convert env shardId now url = .ret stats)
    {period : Period} {number : Number} (hsum : IsInt32 (number.sum (period.rows now url.visits))) :
    number.read (stats.window period) = number.sum (period.rows now url.visits) := by
  have hread := read_addVisits (convert_window h period)
    (fun visit hvisit => hints visit (List.mem_of_mem_filter hvisit)) number
  rw [hread, toInt32_of_isInt32 hsum]

/-! ## Main theorem -/

/-- **The numbers are exact sums**, in any order of the rows, and grow with the window. -/
theorem convert_exact {env : Globalization} {shardId now : ℤ} {url : Url} {stats : UrlStats}
    (hints : ∀ visit ∈ url.visits, visit.Ints) (h : convert env shardId now url = .ret stats) :
    (∀ (period : Period) (number : Number), IsInt32 (number.sum (period.rows now url.visits)) →
      number.read (stats.window period) = number.sum (period.rows now url.visits)) ∧
    (∀ rows : List Visit, rows.Perm url.visits →
      ∃ stats', convert env shardId now { url with visits := rows } = .ret stats' ∧
        stats'.Same stats) ∧
    ∀ number : Number, (∀ visit ∈ url.visits, 0 ≤ number.column visit) →
      number.sum url.visits < 2 ^ 31 →
        number.read stats.lastDay ≤ number.read stats.lastWeek ∧
        number.read stats.lastWeek ≤ number.read stats.lastMonth ∧
        number.read stats.lastMonth ≤ number.read stats.allTime := by
  refine ⟨fun period number hsum => Number.read_eq_sum hints h hsum,
    fun rows hperm => convert_same h hperm, ?_⟩
  intro number hnonneg hsmall
  have hread : ∀ period : Period,
      number.read (stats.window period) = number.sum (period.rows now url.visits) := by
    intro period
    have hlow : 0 ≤ number.sum (period.rows now url.visits) := by
      refine List.sum_nonneg (List.forall_mem_map.mpr ?_)
      intro visit hvisit
      exact hnonneg visit (List.mem_of_mem_filter hvisit)
    have hhigh : number.sum (period.rows now url.visits) ≤ number.sum (Period.allTime.rows now url.visits) :=
      Number.sum_mono hnonneg fun visit _ => decide_eq_true trivial
    rw [Period.rows_allTime] at hhigh
    exact Number.read_eq_sum hints h ⟨by omega, by omega⟩
  have hmono : ∀ {period period' : Period},
      (∀ visit, period.Shows now visit → period'.Shows now visit) →
        number.read (stats.window period) ≤ number.read (stats.window period') := by
    intro period period' hshows
    rw [hread, hread]
    exact Number.sum_mono hnonneg fun visit hvisit =>
      decide_eq_true (hshows visit (of_decide_eq_true hvisit))
  exact ⟨hmono fun _ => Period.shows_longer.1, hmono fun _ => Period.shows_longer.2.1,
    hmono fun _ => Period.shows_longer.2.2⟩

/-- The counters of a new row are 0 and 1. -/
theorem ints_insert (id : ℤ) (args : AddArgs) (now : ℤ) : (Visit.insert id args now).Ints := by
  have hflag : ∀ (b : Prop) [Decidable b], IsInt32 (flag b) := by
    intro b _
    unfold flag
    split_ifs <;> decide
  have hcounter : ∀ (key : Option String) (name : String),
      IsInt32 (((counter key).lookup name).getD 0) := by
    intro key name
    rw [lookup_counter]
    split_ifs <;> decide
  intro number
  cases number with
  | views => exact (by decide : IsInt32 1)
  | platform type => cases type <;> exact hflag _
  | browser type => cases type <;> exact hflag _
  | mobileDeviceType name => exact hcounter _ name
  | country name => exact hcounter _ name
  | referrer name => exact hcounter _ name

/-- Two rows, of which the newer one counts a visit from Germany. -/
def twoRows : List Visit :=
  [.insert 1 ⟨5, "us", none, none⟩ 0,
    .insert 2 ⟨5, "de", some ⟨.browser, some ⟨.windows, "Windows 10"⟩,
      some ⟨.chrome, "Chrome", some "120.0"⟩, none⟩, none⟩ (days 2)]

theorem convert_exact_twoRows :
    ∃ stats, convert .invariantMode 0 (days 2) ⟨5, "https://example.com", 1, 2, twoRows, 0⟩ = .ret stats ∧
      stats.lastDay.views = 1 ∧ stats.allTime.views = 2 ∧
      Number.read stats.lastDay (.country "de") = 1 ∧
      Number.read stats.lastWeek (.country "us") ≤ Number.read stats.lastMonth (.country "us") := by
  have hints : ∀ visit ∈ twoRows, visit.Ints := by
    unfold twoRows
    rw [List.forall_mem_cons, List.forall_mem_singleton]
    exact ⟨ints_insert _ _ _, ints_insert _ _ _⟩
  have hreturns : (convert .invariantMode 0 (days 2)
      ⟨5, "https://example.com", 1, 2, twoRows, 0⟩).Returns := by decide +kernel
  obtain ⟨stats, hstats⟩ := hreturns
  obtain ⟨hexact, -, hmono⟩ := convert_exact hints hstats
  refine ⟨stats, hstats, ?_, ?_, ?_, ?_⟩
  · exact (hexact .day .views (by decide +kernel)).trans (by decide +kernel)
  · exact (hexact .allTime .views (by decide +kernel)).trans (by decide +kernel)
  · exact (hexact .day (.country "de") (by decide +kernel)).trans (by decide +kernel)
  · exact (hmono (.country "us") (by decide +kernel) (by decide +kernel)).2.1

end Shortener.Stats
