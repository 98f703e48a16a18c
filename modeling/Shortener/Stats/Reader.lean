import Shortener.Stats.Convert

/-!
# The reader accepts what the writer writes

Every visit is counted under the key `Name-Version` of its browser. `Convert` splits
the key at the first dash and puts the versions of one browser in a fresh dictionary
with `Add`. For `BrowserType.Other` this dictionary holds the versions of all browsers
that no other type has taken, so two of them may share a version.

* `convert_returns_iff`: `Convert` returns exactly when the number of the short id has
  seven digits, and in each row that counts an `Other` browser no two of the keys left
  over share a version.
* `convert_twoRobots`: two robots within one hour are enough.
-/

namespace Shortener.Stats

open Shortener.Common Shortener.DotNet Shortener.Codec

/-! ## Keys of `Browsers` -/

/-- The part of a key before its first dash. -/
def browserOf (key : String) : String :=
  String.ofList (key.toList.take (key.toList.idxOf '-'))

/-- The part of a key after its first dash. -/
def versionOf (key : String) : String :=
  String.ofList (key.toList.drop (key.toList.idxOf '-' + 1))

/-- `key` has a dash. -/
def HasDash (key : String) : Prop := '-' ∈ key.toList

theorem splitAtDash_of_hasDash {key : String} (h : HasDash key) :
    splitAtDash key = .ret (browserOf key, versionOf key) := by
  obtain ⟨i, hi⟩ := Option.isSome_iff_exists.mp (List.isSome_idxOf?.mpr h)
  rw [splitAtDash, browserOf, versionOf, List.idxOf_eq_getD_idxOf?, hi]
  rfl

/-- A key is determined by its parts. -/
theorem toList_eq_of_hasDash {key : String} (h : HasDash key) :
    key.toList = (browserOf key).toList ++ '-' :: (versionOf key).toList := by
  have hlt : key.toList.idxOf '-' < key.toList.length := List.idxOf_lt_length_of_mem h
  rw [browserOf, versionOf, String.toList_ofList, String.toList_ofList]
  conv_lhs => rw [← List.take_append_drop (key.toList.idxOf '-') key.toList]
  rw [List.drop_eq_getElem_cons hlt, List.getElem_idxOf hlt]

theorem key_ext {key key' : String} (h : HasDash key) (h' : HasDash key')
    (hbrowser : browserOf key = browserOf key') (hversion : versionOf key = versionOf key') :
    key = key' := by
  apply String.toList_injective
  rw [toList_eq_of_hasDash h, toList_eq_of_hasDash h', hbrowser, hversion]

theorem hasDash_browserVersion (browser : Browser) : HasDash browser.browserVersion := by
  simp [HasDash, Browser.browserVersion, String.toList_append]

/-! ## `AddPlatforms` always returns -/

theorem addPlatformVariants_returns (type : PlatformType) (platformViews : ℤ)
    (isPlatform : Option (String → Bool)) (stats : ViewStats) (platforms : Dictionary String ℤ) :
    (addPlatformVariants type platformViews isPlatform stats platforms).Returns := by
  unfold addPlatformVariants
  split_ifs with h
  · exact Exec.returns_ret _
  · have htake : (takeEntries (selectVariant isPlatform) platforms).Returns := by
      have hsel : ∀ key ∈ platforms,
          selectVariant isPlatform key = .ret (takenVariant isPlatform key) := fun _ _ => rfl
      rw [takeEntries_returns_iff hsel]
      intro key _ key' _ name hname hname'
      simp only [takenVariant, Option.ite_none_right_eq_some, Option.some.injEq] at hname hname'
      exact hname.2.trans hname'.2.symm
    obtain ⟨dicts, hdicts⟩ := htake
    exact Exec.returns_bind.mpr ⟨dicts, hdicts, Exec.returns_ret _⟩

theorem addPlatforms_returns (env : Globalization) (stats : ViewStats) (visit : Visit) :
    (addPlatforms env stats visit).Returns := by
  unfold addPlatforms
  obtain ⟨_, h1⟩ := addPlatformVariants_returns .windows visit.windows (isWindows env) stats
    visit.platforms
  refine Exec.returns_bind.mpr ⟨_, h1, ?_⟩
  obtain ⟨_, h2⟩ := addPlatformVariants_returns .linux visit.linux isLinux _ _
  refine Exec.returns_bind.mpr ⟨_, h2, ?_⟩
  obtain ⟨_, h3⟩ := addPlatformVariants_returns .macOs visit.macOs isMacOs _ _
  refine Exec.returns_bind.mpr ⟨_, h3, ?_⟩
  obtain ⟨_, h4⟩ := addPlatformVariants_returns .other visit.otherPlatform none _ _
  exact Exec.returns_bind.mpr ⟨_, h4, Exec.returns_ret _⟩

/-! ## When `AddBrowsers` returns -/

/-- The name under which `AddBrowser` takes a key. -/
def takenVersion (browserName : Option String) (key : String) : Option String :=
  if browserName.elim true (browserOf key = ·) then some (versionOf key) else none

theorem selectVersion_of_hasDash (browserName : Option String) {key : String} (h : HasDash key) :
    selectVersion browserName key = .ret (takenVersion browserName key) := by
  rw [selectVersion, splitAtDash_of_hasDash h]
  rfl

theorem takenVersion_eq_some {browserName : Option String} {key version : String} :
    takenVersion browserName key = some version ↔
      (∀ name, browserName = some name → browserOf key = name) ∧ versionOf key = version := by
  cases browserName <;> simp [takenVersion]

/-- The versions of one browser are distinct, as their keys are. -/
theorem takeEntries_family_returns {browsers : Dictionary String ℤ}
    (hkeys : ∀ key ∈ browsers, HasDash key) (name : String) :
    (takeEntries (selectVersion (some name)) browsers).Returns := by
  rw [takeEntries_returns_iff fun key hkey => selectVersion_of_hasDash _ (hkeys key hkey)]
  intro key hkey key' hkey' version hversion hversion'
  rw [takenVersion_eq_some] at hversion hversion'
  exact key_ext (hkeys key hkey) (hkeys key' hkey')
    ((hversion.1 name rfl).trans (hversion'.1 name rfl).symm)
    (hversion.2.trans hversion'.2.symm)

/-- `AddBrowser` for a named browser returns, and leaves the keys of the other browsers. -/
theorem addBrowser_family {browsers : Dictionary String ℤ}
    (hkeys : ∀ key ∈ browsers, HasDash key) (type : BrowserType) (views : ℤ) (name : String)
    (stats : ViewStats) :
    ∃ stats' browsers', addBrowser type views (some name) stats browsers = .ret (stats', browsers') ∧
      ∀ key, key ∈ browsers' ↔ key ∈ browsers ∧ (views ≠ 0 → browserOf key ≠ name) := by
  unfold addBrowser
  split_ifs with h
  · exact ⟨stats, browsers, rfl, fun key => by simp [h]⟩
  · obtain ⟨⟨versions, browsers'⟩, htake⟩ := takeEntries_family_returns hkeys name
    refine ⟨_, browsers', by rw [htake]; rfl, ?_⟩
    intro key
    rw [mem_takeEntries (fun key hkey => selectVersion_of_hasDash _ (hkeys key hkey)) htake]
    simp [takenVersion, h]

/-- A key that none of the calls in `families` takes. -/
def LeftOver (families : List (BrowserType × ℤ × String)) (key : String) : Prop :=
  ∀ family ∈ families, family.2.1 ≠ 0 → browserOf key ≠ family.2.2

/-- The calls for the named browsers return, and leave the keys of no named browser. -/
theorem addBrowsers_families (families : List (BrowserType × ℤ × String)) (stats : ViewStats)
    {browsers : Dictionary String ℤ} (hkeys : ∀ key ∈ browsers, HasDash key) :
    ∃ dicts, families.foldlM (fun (stats, browsers) (type, views, name) =>
        addBrowser type views (some name) stats browsers) (stats, browsers) = .ret dicts ∧
      ∀ key, key ∈ dicts.2 ↔ key ∈ browsers ∧ LeftOver families key := by
  induction families generalizing stats browsers with
  | nil => exact ⟨_, rfl, fun key => by simp [LeftOver]⟩
  | cons family families ih =>
    obtain ⟨type, views, name⟩ := family
    obtain ⟨stats₁, browsers₁, hcall, hmem₁⟩ := addBrowser_family hkeys type views name stats
    obtain ⟨dicts, hloop, hmem⟩ := ih stats₁ fun key hkey => hkeys key ((hmem₁ key).mp hkey).1
    refine ⟨dicts, Exec.foldlM_cons_eq_ret_iff.mpr ⟨_, hcall, hloop⟩, ?_⟩
    intro key
    rw [hmem, hmem₁, LeftOver, LeftOver, List.forall_mem_cons, and_assoc]

/-- In a row that counts an `Other` browser, no two keys that are left for it share a
    version. -/
def Visit.DistinctVersions (visit : Visit) : Prop :=
  visit.otherBrowser ≠ 0 →
    ∀ key ∈ visit.browsers, LeftOver visit.families key →
      ∀ key' ∈ visit.browsers, LeftOver visit.families key' →
        versionOf key = versionOf key' → key = key'

theorem addBrowser_other_returns_iff {browsers : Dictionary String ℤ}
    (hkeys : ∀ key ∈ browsers, HasDash key) (views : ℤ) (stats : ViewStats) :
    (addBrowser .other views none stats browsers).Returns ↔
      (views ≠ 0 → ∀ key ∈ browsers, ∀ key' ∈ browsers,
        versionOf key = versionOf key' → key = key') := by
  unfold addBrowser
  split_ifs with h
  · simp [h]
  · have htake : (takeEntries (selectVersion none) browsers).Returns ↔
        ∀ key ∈ browsers, ∀ key' ∈ browsers, versionOf key = versionOf key' → key = key' := by
      rw [takeEntries_returns_iff fun key hkey => selectVersion_of_hasDash _ (hkeys key hkey)]
      simp only [takenVersion, Option.elim_none, if_true, Option.some.injEq]
      exact ⟨fun h key hkey key' hkey' heq => h key hkey key' hkey' _ heq rfl,
        fun h key hkey key' hkey' name hname hname' =>
          h key hkey key' hkey' (hname.trans hname'.symm)⟩
    rw [← htake, Exec.returns_bind]
    simp [Exec.Returns, h]

theorem addBrowsers_returns_iff {visit : Visit} (hkeys : ∀ key ∈ visit.browsers, HasDash key)
    (stats : ViewStats) : (addBrowsers stats visit).Returns ↔ visit.DistinctVersions := by
  obtain ⟨⟨stats₁, browsers₁⟩, hloop, hmem⟩ := addBrowsers_families visit.families stats hkeys
  have hother : (addBrowsers stats visit).Returns ↔
      (addBrowser .other visit.otherBrowser none stats₁ browsers₁).Returns := by
    rw [addBrowsers, hloop, Exec.ret_bind, Exec.returns_bind]
    simp [Exec.Returns]
  rw [hother, addBrowser_other_returns_iff fun key hkey => hkeys key ((hmem key).mp hkey).1]
  simp only [hmem, Visit.DistinctVersions, and_imp]

/-! ## Rows are read independently -/

theorem addBrowser_simulation {type : BrowserType} {views : ℤ} {browserName : Option String}
    {stats stats₁ : ViewStats} {browsers browsers₁ : Dictionary String ℤ}
    (h : addBrowser type views browserName stats browsers = .ret (stats₁, browsers₁))
    (stats' : ViewStats) :
    ∃ stats₁', addBrowser type views browserName stats' browsers = .ret (stats₁', browsers₁) := by
  unfold addBrowser at h ⊢
  split_ifs at h ⊢
  · obtain ⟨-, rfl⟩ := Prod.mk.inj (Exec.ret.inj h)
    exact ⟨stats', rfl⟩
  · obtain ⟨dicts, htake, h⟩ := Exec.bind_eq_ret_iff.mp h
    obtain ⟨-, rfl⟩ := Prod.mk.inj (Exec.ret.inj h)
    exact ⟨_, by rw [htake]; rfl⟩

theorem addBrowsers_simulation {stats stats₁ : ViewStats} {visit : Visit}
    (h : addBrowsers stats visit = .ret stats₁) (stats' : ViewStats) :
    (addBrowsers stats' visit).Returns := by
  simp only [addBrowsers, Exec.bind_eq_ret_iff, Exec.pure_eq, Exec.ret.injEq, Prod.exists] at h
  obtain ⟨stats₂, browsers₂, hloop, _, _, hother, rfl⟩ := h
  obtain ⟨⟨stats₂', browsers₂'⟩, hloop', rfl⟩ := Exec.foldlM_simulation
    (g := fun (stats, browsers) (type, views, name) =>
      addBrowser type views (some name) stats browsers)
    (R := fun dicts dicts' => dicts.2 = dicts'.2) (d := (stats', visit.browsers)) hloop rfl (by
      rintro ⟨type, views, name⟩ - ⟨s, browsers⟩ ⟨s', -⟩ ⟨s₁, browsers₁⟩ rfl hstep
      obtain ⟨s₁', hstep'⟩ := addBrowser_simulation hstep s'
      exact ⟨_, hstep', rfl⟩)
  obtain ⟨stats₃', hother'⟩ := addBrowser_simulation hother stats₂'
  refine ⟨stats₃', ?_⟩
  rw [addBrowsers, hloop', Exec.ret_bind]
  show addBrowser .other visit.otherBrowser none stats₂' browsers₂ >>= _ = _
  rw [hother']
  rfl

/-- Whether a row can be added does not depend on what was added before. -/
theorem addVisit_returns_empty (env : Globalization) (visit : Visit) (stats : ViewStats) :
    (addVisit env stats visit).Returns ↔ (addVisit env .empty visit).Returns := by
  have htransfer : ∀ stats stats' : ViewStats, (addVisit env stats visit).Returns →
      (addVisit env stats' visit).Returns := by
    intro stats stats' hreturns
    obtain ⟨stats₁, h⟩ := hreturns
    simp only [addVisit, Exec.bind_eq_ret_iff] at h
    obtain ⟨stats₂, -, stats₃, hbrowsers, -⟩ := h
    obtain ⟨stats₂', hplatforms'⟩ := addPlatforms_returns env (addTypes stats' visit) visit
    obtain ⟨stats₃', hbrowsers'⟩ := addBrowsers_simulation hbrowsers stats₂'
    rw [addVisit, hplatforms', Exec.ret_bind, hbrowsers']
    exact Exec.returns_ret _
  exact ⟨htransfer _ _, htransfer _ _⟩

theorem addVisits_returns_iff_rows (env : Globalization) (rows : List Visit) :
    (addVisits env rows).Returns ↔ ∀ visit ∈ rows, (addVisit env .empty visit).Returns :=
  Exec.foldlM_returns_iff (fun visit _ stats => addVisit_returns_empty env visit stats) _

/-- `Convert` returns exactly when every row can be added and the short id can be printed. -/
theorem convert_returns_iff_rows (env : Globalization) (shardId now : ℤ) (url : Url) :
    (convert env shardId now url).Returns ↔
      (ShortId.toString ⟨shardId, url.id⟩).Returns ∧
        ∀ visit ∈ url.visits, (addVisit env .empty visit).Returns := by
  constructor
  · intro hreturns
    obtain ⟨s, hs⟩ := hreturns
    obtain ⟨hid, -, -, -, -, -, hall⟩ := convert_eq_ret_iff.mp hs
    exact ⟨⟨_, hid⟩, (addVisits_returns_iff_rows env url.visits).mp ⟨_, hall⟩⟩
  · intro hreturns
    obtain ⟨⟨shortId, hid⟩, hrows⟩ := hreturns
    have hwindow : ∀ window, (addVisits env (url.visits.filter (·.IsWithin window now))).Returns :=
      fun window => (addVisits_returns_iff_rows env _).mpr
        fun visit hvisit => hrows visit (List.mem_of_mem_filter hvisit)
    obtain ⟨allTime, hall⟩ := (addVisits_returns_iff_rows env url.visits).mpr hrows
    obtain ⟨lastDay, hday⟩ := hwindow (days 1)
    obtain ⟨lastWeek, hweek⟩ := hwindow (days 7)
    obtain ⟨lastMonth, hmonth⟩ := hwindow (days 30)
    exact ⟨⟨shortId, url.destinationUrl, url.totalViews, lastDay, lastWeek, lastMonth, allTime⟩,
      convert_eq_ret_iff.mpr ⟨hid, rfl, rfl, hday, hweek, hmonth, hall⟩⟩

/-- The time of the call does not matter. -/
theorem convert_returns_congr (env : Globalization) (shardId now now' : ℤ) (url : Url) :
    (convert env shardId now url).Returns ↔ (convert env shardId now' url).Returns := by
  rw [convert_returns_iff_rows, convert_returns_iff_rows]

/-! ## When `Convert` returns -/

theorem addVisit_returns_iff (env : Globalization) {visit : Visit}
    (hkeys : ∀ key ∈ visit.browsers, HasDash key) (stats : ViewStats) :
    (addVisit env stats visit).Returns ↔ visit.DistinctVersions := by
  obtain ⟨stats₁, h1⟩ := addPlatforms_returns env (addTypes stats visit) visit
  rw [addVisit, h1, Exec.ret_bind, Exec.returns_bind, ← addBrowsers_returns_iff hkeys stats₁]
  simp [Exec.Returns]

/-- `Convert` of rows with proper keys. -/
theorem convert_returns_iff (env : Globalization) (shardId now : ℤ) {url : Url}
    (hkeys : ∀ visit ∈ url.visits, ∀ key ∈ visit.browsers, HasDash key) :
    (convert env shardId now url).Returns ↔
      (ShortId.toString ⟨shardId, url.id⟩).Returns ∧
        ∀ visit ∈ url.visits, visit.DistinctVersions := by
  rw [convert_returns_iff_rows]
  exact and_congr_right fun _ => forall₂_congr fun visit hvisit =>
    addVisit_returns_iff env (hkeys visit hvisit) _

/-! ## Rows that the writer wrote -/

theorem hasDash_count {browsers : Dictionary String ℤ} (h : ∀ key ∈ browsers, HasDash key)
    (browser : Option Browser) :
    ∀ key ∈ count browsers (browser.map Browser.browserVersion), HasDash key := by
  cases browser with
  | none => exact h
  | some browser =>
    intro key hkey
    rcases Dictionary.mem_increment.mp hkey with rfl | hkey
    · exact hasDash_browserVersion browser
    · exact h key hkey

theorem hasDash_counter (browser : Option Browser) :
    ∀ key ∈ counter (browser.map Browser.browserVersion), HasDash key := by
  cases browser with
  | none => simp [counter]
  | some browser =>
    intro key hkey
    simp only [Option.map_some, counter, Option.elim_some, AList.mem_keys, AList.keys_singleton,
      List.mem_singleton] at hkey
    exact hkey ▸ hasDash_browserVersion browser

theorem hasDash_step (env : Globalization) {s t : State} {e : Event}
    (hs : s.table.All fun visit => ∀ key ∈ visit.browsers, HasDash key)
    (h : step env s e = some t) :
    t.table.All fun visit => ∀ key ∈ visit.browsers, HasDash key := by
  rcases step_cases h with ⟨n, urlId, country, userAgent, referrerHost, now, i, existing, -, -, rfl⟩ |
    ⟨n, now, call, table, -, -, hw, rfl⟩ | ⟨n, -, rfl⟩
  · exact hs
  · exact hs.write (fun _ => hasDash_counter call.args.browser)
      (fun _ hv => hasDash_count hv call.args.browser) hw
  · exact hs

/-- **When `Convert` accepts what `Add` wrote.** -/
theorem convert_recorded_returns_iff (env : Globalization) {es : List Event} {s : State}
    (h : Run (step env) always .init es s) (shardId now : ℤ) {url : Url}
    (hrows : url.visits.Perm (s.table.ofUrl url.id)) :
    (convert env shardId now url).Returns ↔
      (0 ≤ ShortId.base10Id ⟨shardId, url.id⟩ ∧ ShortId.base10Id ⟨shardId, url.id⟩ < 62 ^ 7) ∧
        ∀ visit ∈ url.visits, visit.DistinctVersions := by
  have hdash : s.table.All fun visit => ∀ key ∈ visit.browsers, HasDash key :=
    h.invariant (by simp [Table.All, State.init, Table.empty])
      fun s e t hs _ hstep => hasDash_step env hs hstep
  rw [convert_returns_iff env shardId now, ShortId.toString_returns_iff]
  intro visit hvisit
  obtain ⟨⟨id, hid⟩, -⟩ := Table.mem_ofUrl.mp (hrows.subset hvisit)
  exact hdash id visit hid

/-- A visit by Chrome and one by a robot, in one row. -/
def browserAndRobot : List Event :=
  [.read 0 5 none (some (.parse ⟨.browser, some (.windows, "Windows 10"), some "Chrome",
      some "120.0", none⟩)) none 0 0, .write 0 0,
    .read 1 5 none (some (.parse ⟨.robot, none, some "Googlebot", none, none⟩)) none 60 0,
    .write 1 60]

theorem convert_browserAndRobot :
    ∃ s, Run (step .invariantMode) always .init browserAndRobot s ∧
      (convert .invariantMode 0 60 ⟨5, "https://example.com", 1, 2, s.table.ofUrl 5, 0⟩).Returns ∧
      ((convert .invariantMode 0 60 ⟨5, "https://example.com", 1, 2, s.table.ofUrl 5, 0⟩).Returns ↔
        (0 ≤ ShortId.base10Id ⟨0, 5⟩ ∧ ShortId.base10Id ⟨0, 5⟩ < 62 ^ 7) ∧
          ∀ visit ∈ s.table.ofUrl 5, visit.DistinctVersions) := by
  have hrun : Run (step .invariantMode) always .init browserAndRobot
      ((browserAndRobot.foldlM (step .invariantMode) .init).getD .init) := run_iff_foldlM.mpr rfl
  exact ⟨_, hrun, by decide +kernel,
    convert_recorded_returns_iff .invariantMode hrun 0 60 (List.Perm.refl _)⟩

/-- Two robots in one row, both without a version. -/
def twoRobots : List Event :=
  [.read 0 5 none (some (.parse ⟨.robot, none, some "Googlebot", none, none⟩)) none 0 0, .write 0 0,
    .read 1 5 none (some (.parse ⟨.robot, none, some "Bingbot", none, none⟩)) none 60 0,
    .write 1 60]

theorem convert_twoRobots :
    ∃ s, Run (step .invariantMode) always .init twoRobots s ∧
      ¬ (convert .invariantMode 0 60 ⟨5, "https://example.com", 1, 2, s.table.ofUrl 5, 0⟩).Returns := by
  have hrun : Run (step .invariantMode) always .init twoRobots
      ((twoRobots.foldlM (step .invariantMode) .init).getD .init) := run_iff_foldlM.mpr rfl
  exact ⟨_, hrun, by decide +kernel⟩

end Shortener.Stats
