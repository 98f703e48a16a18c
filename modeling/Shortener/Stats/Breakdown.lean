import Shortener.Stats.Classes
import Shortener.Stats.Counters
import Shortener.Stats.Order

/-!
# Breakdowns

`VisitRepository.Add` counts a visit by the platform and the browser type of the parser, and
notes the names in one object for all platforms and one for all browsers. `Convert` has to find
out again which name belongs to which type. Where both agree for every visit of a URL, the
`VariantViews` of a platform and the `VersionViews` of a browser add up to its `Views`.

* `Visit.Sorted`: rows that are read the way they were written.
* `sorted_insert`, `sorted_update`: what keeps them so.
* `breakdown_addUp`: runs of such visits.
* `not_breakdown_android`: a visit by Android is counted as a variant of another platform.
-/

namespace Shortener.Stats

open Shortener.Common Shortener.DotNet

/-! ## Classes of platforms and browsers -/

/-- The platforms in the order in which they take names. -/
def platformClasses (env : Globalization) : List (Class PlatformType) :=
  [⟨.windows, isWindows env⟩, ⟨.linux, isLinux⟩, ⟨.macOs, isMacOs⟩, ⟨.other, fun _ => true⟩]

/-- The keys that have this name as their browser. -/
def named (type : BrowserType) (name : String) : Class BrowserType :=
  ⟨type, fun key => browserOf key = name⟩

/-- The browsers in the order in which they take keys. -/
def browserClasses : List (Class BrowserType) :=
  [named .chrome "Chrome", named .edge "Edge", named .firefox "Firefox",
    named .internetExplorer "Internet Explorer", named .opera "Opera", named .safari "Safari",
    ⟨.other, fun _ => true⟩]

theorem selectVariant_isSome (isPlatform : String → Bool) (platforms : Dictionary String ℤ) :
    ∀ key ∈ platforms, ∃ name, selectVariant (some isPlatform) key = .ret name ∧
      name.isSome = isPlatform key := by
  intro key _
  refine ⟨takenVariant (some isPlatform) key, rfl, ?_⟩
  unfold takenVariant
  rw [Option.elim_some]
  split_ifs with h
  · exact h.symm
  · exact (Bool.eq_false_of_not_eq_true h).symm

/-- `AddPlatforms` reads the platforms in this order; `Ios` and `Android` take no names. -/
theorem platformParts_readIn {env : Globalization} {visit : Visit} {parts : List (GroupStats PlatformType)}
    (h : platformParts env visit = .ret parts) :
    ∃ sorted, ReadIn visit.platformColumn (platformClasses env) visit.platforms sorted ∧
      ∀ part ∈ parts, part.type ≠ .ios → part.type ≠ .android → part ∈ sorted := by
  simp only [platformParts, Exec.bind_eq_ret_iff, Exec.pure_eq, Exec.ret.injEq, Prod.exists] at h
  obtain ⟨windows, _, hwindows, linux, _, hlinux, macOs, _, hmacOs, other, _, hother, rfl⟩ := h
  refine ⟨windows ++ (linux ++ (macOs ++ (other ++ []))), ?_, ?_⟩
  · refine .cons (selectVariant_isSome _ _) hwindows (.cons (selectVariant_isSome _ _) hlinux
      (.cons (selectVariant_isSome _ _) hmacOs (.cons ?_ hother .nil)))
    exact fun key _ => ⟨some key, rfl, rfl⟩
  · intro part hpart hios handroid
    simp only [List.mem_append, List.mem_singleton, List.not_mem_nil, or_false] at hpart ⊢
    rcases hpart with ((((hpart | hpart) | rfl) | hpart) | rfl) | hpart
    · exact .inl hpart
    · exact .inr (.inl hpart)
    · exact absurd rfl hios
    · exact .inr (.inr (.inl hpart))
    · exact absurd rfl handroid
    · exact .inr (.inr (.inr hpart))

theorem selectVersion_isSome (browserName : Option String) {browsers : Dictionary String ℤ}
    (hkeys : ∀ key ∈ browsers, HasDash key) :
    ∀ key ∈ browsers, ∃ name, selectVersion browserName key = .ret name ∧
      name.isSome = browserName.elim true (browserOf key = ·) := by
  intro key hkey
  refine ⟨takenVersion browserName key, selectVersion_of_hasDash _ (hkeys key hkey), ?_⟩
  unfold takenVersion
  split_ifs with h
  · exact h.symm
  · exact (Bool.eq_false_of_not_eq_true h).symm

/-- The loop over the named browsers. -/
theorem familyParts_readIn {counter : BrowserType → ℤ} {families : List (BrowserType × ℤ × String)}
    {parts parts' : List (GroupStats BrowserType)} {browsers browsers' : Dictionary String ℤ}
    (hcounter : ∀ family ∈ families, family.2.1 = counter family.1)
    (hkeys : ∀ key ∈ browsers, HasDash key)
    (h : families.foldlM familyPart (parts, browsers) = .ret (parts', browsers')) :
    (∀ key ∈ browsers', HasDash key) ∧ ∃ new, parts' = parts ++ new ∧
      ∀ classes later, ReadIn counter classes browsers' later →
        ReadIn counter (families.map (fun family => named family.1 family.2.2) ++ classes) browsers
          (new ++ later) := by
  induction families generalizing parts browsers with
  | nil =>
    obtain ⟨rfl, rfl⟩ := Prod.mk.inj (Exec.ret.inj h)
    exact ⟨hkeys, [], (List.append_nil _).symm, fun _ _ hread => hread⟩
  | cons family families ih =>
    obtain ⟨hviews, hfamilies⟩ := List.forall_mem_cons.mp hcounter
    obtain ⟨⟨parts₁, browsers₁⟩, hfamily, hrest⟩ := Exec.foldlM_cons_eq_ret_iff.mp h
    rw [familyPart, Exec.bind_eq_ret_iff] at hfamily
    obtain ⟨⟨first, rest⟩, hfirst, hret⟩ := hfamily
    obtain ⟨rfl, rfl⟩ := Prod.mk.inj (Exec.ret.inj hret)
    rw [hviews] at hfirst
    have hkeys₁ : ∀ key ∈ rest, HasDash key := by
      intro key hkey
      rcases groupPart_eq_ret_iff.mp hfirst with ⟨-, -, rfl⟩ | ⟨-, taken, htake, -⟩
      · exact hkeys key hkey
      · have hsel : ∀ key ∈ browsers, selectVersion (some family.2.2) key =
            .ret (takenVersion (some family.2.2) key) :=
          fun key hkey => selectVersion_of_hasDash _ (hkeys key hkey)
        exact hkeys key ((mem_takeEntries hsel htake key).mp hkey).1
    obtain ⟨hkeys', new, rfl, hread⟩ := ih hfamilies hkeys₁ hrest
    refine ⟨hkeys', first ++ new, List.append_assoc _ _ _, ?_⟩
    intro classes later hlater
    rw [List.append_assoc]
    exact .cons (selectVersion_isSome (some family.2.2) hkeys) hfirst (hread classes later hlater)

/-- `AddBrowsers` reads the browsers in this order. -/
theorem browserParts_readIn {visit : Visit} (hkeys : ∀ key ∈ visit.browsers, HasDash key)
    {parts : List (GroupStats BrowserType)} (h : browserParts visit = .ret parts) :
    ReadIn visit.browserColumn browserClasses visit.browsers parts := by
  simp only [browserParts, Exec.bind_eq_ret_iff, Exec.pure_eq, Exec.ret.injEq, Prod.exists] at h
  obtain ⟨_, browsers, hnamed, other, _, hother, rfl⟩ := h
  have hcounter : ∀ family ∈ visit.families, family.2.1 = visit.browserColumn family.1 := by
    intro family hfamily
    simp only [Visit.families, List.mem_cons, List.not_mem_nil, or_false] at hfamily
    rcases hfamily with rfl | rfl | rfl | rfl | rfl | rfl <;> rfl
  obtain ⟨hkeys', new, rfl, hread⟩ := familyParts_readIn hcounter hkeys hnamed
  have hlast : ReadIn visit.browserColumn [⟨.other, fun _ => true⟩] browsers (other ++ []) :=
    .cons (selectVersion_isSome none hkeys') hother .nil
  rw [List.append_nil] at hlast
  exact hread _ _ hlast

/-! ## Rows -/

/-- The row is read the way it was written, and none of its counters is above `Total`. -/
structure Visit.Sorted (env : Globalization) (visit : Visit) : Prop where
  platforms : SortedNames (platformClasses env) visit.platformColumn visit.platforms
  browsers : SortedNames browserClasses visit.browserColumn visit.browsers
  platformNames : visit.platforms.Nonneg
  browserNames : visit.browsers.Nonneg
  keys : ∀ key ∈ visit.browsers, HasDash key
  total : 0 ≤ visit.total
  platformColumns : ∀ type, visit.platformColumn type ≤ visit.total
  browserColumns : ∀ type, visit.browserColumn type ≤ visit.total

/-- The visit may be the first one of a row. -/
structure AddArgs.Opens (env : Globalization) (args : AddArgs) : Prop where
  platform : Fits (platformClasses env) (fun _ => 0) ∅ (args.platform.map Platform.type) args.kept
  browser : Fits browserClasses (fun _ => 0) ∅ (args.browser.map Browser.type)
    (args.browser.map Browser.browserVersion)

/-- The visit may follow those of the row. -/
structure Visit.Accepts (env : Globalization) (visit : Visit) (args : AddArgs) : Prop where
  platform : Fits (platformClasses env) visit.platformColumn visit.platforms
    (args.platform.map Platform.type) (args.platform.map Platform.name)
  browser : Fits browserClasses visit.browserColumn visit.browsers (args.browser.map Browser.type)
    (args.browser.map Browser.browserVersion)

instance (env : Globalization) (args : AddArgs) : Decidable (args.Opens env) :=
  decidable_of_iff (_ ∧ _) ⟨fun h => ⟨h.1, h.2⟩, fun h => ⟨h.platform, h.browser⟩⟩

instance (env : Globalization) (visit : Visit) (args : AddArgs) : Decidable (visit.Accepts env args) :=
  decidable_of_iff (_ ∧ _) ⟨fun h => ⟨h.1, h.2⟩, fun h => ⟨h.platform, h.browser⟩⟩

theorem counter_eq_count (key : Option String) : counter key = count ∅ key := by
  cases key with
  | none => rfl
  | some key => exact AList.ext rfl

theorem nonneg_count {names : Dictionary String ℤ} (h : names.Nonneg) (key : Option String) :
    (count names key).Nonneg := by
  cases key with
  | none => exact h
  | some key =>
    have hold : 0 ≤ (names.lookup key).getD 0 := by
      cases hlookup : names.lookup key with
      | none => exact le_rfl
      | some value => exact h key value hlookup
    exact h.insert (by omega)

theorem flag_le_one (b : Prop) [Decidable b] : flag b ≤ 1 := by
  unfold flag
  split_ifs <;> omega

theorem platformColumn_insert (id now : ℤ) (args : AddArgs) :
    (Visit.insert id args now).platformColumn =
      counted (fun _ => 0) (args.platform.map Platform.type) := by
  funext type
  unfold counted
  rw [zero_add]
  cases type <;> rfl

theorem browserColumn_insert (id now : ℤ) (args : AddArgs) :
    (Visit.insert id args now).browserColumn =
      counted (fun _ => 0) (args.browser.map Browser.type) := by
  funext type
  unfold counted
  rw [zero_add]
  cases type <;> rfl

theorem platformColumn_update (visit : Visit) (args : AddArgs) :
    (visit.update args).platformColumn =
      counted visit.platformColumn (args.platform.map Platform.type) := by
  funext type
  cases type <;> rfl

theorem browserColumn_update (visit : Visit) (args : AddArgs) :
    (visit.update args).browserColumn =
      counted visit.browserColumn (args.browser.map Browser.type) := by
  funext type
  cases type <;> rfl

theorem sorted_insert {env : Globalization} {args : AddArgs} (h : args.Opens env) (id now : ℤ) :
    (Visit.insert id args now).Sorted env where
  platforms := by
    rw [platformColumn_insert, show (Visit.insert id args now).platforms = count ∅ args.kept from
      counter_eq_count _]
    exact sorted_count (sortedNames_empty _ _) h.platform
  browsers := by
    rw [browserColumn_insert, show (Visit.insert id args now).browsers =
      count ∅ (args.browser.map Browser.browserVersion) from counter_eq_count _]
    exact sorted_count (sortedNames_empty _ _) h.browser
  platformNames := by
    show (counter _).Nonneg
    rw [counter_eq_count]
    exact nonneg_count Dictionary.nonneg_empty _
  browserNames := by
    show (counter _).Nonneg
    rw [counter_eq_count]
    exact nonneg_count Dictionary.nonneg_empty _
  keys := hasDash_counter args.browser
  total := zero_le_one
  platformColumns type := by
    rw [platformColumn_insert]
    unfold counted
    rw [zero_add]
    exact flag_le_one _
  browserColumns type := by
    rw [browserColumn_insert]
    unfold counted
    rw [zero_add]
    exact flag_le_one _

theorem sorted_update {env : Globalization} {visit : Visit} {args : AddArgs} (hvisit : visit.Sorted env)
    (h : visit.Accepts env args) : (visit.update args).Sorted env where
  platforms := by
    rw [platformColumn_update]
    exact sorted_count hvisit.platforms h.platform
  browsers := by
    rw [browserColumn_update]
    exact sorted_count hvisit.browsers h.browser
  platformNames := nonneg_count hvisit.platformNames _
  browserNames := nonneg_count hvisit.browserNames _
  keys := hasDash_count hvisit.keys args.browser
  total := by
    have := hvisit.total
    show 0 ≤ visit.total + 1
    omega
  platformColumns type := by
    rw [platformColumn_update]
    exact add_le_add (hvisit.platformColumns type) (flag_le_one _)
  browserColumns type := by
    rw [browserColumn_update]
    exact add_le_add (hvisit.browserColumns type) (flag_le_one _)

/-! ## Windows -/

/-- For the platforms that have variants, and for the browsers, the parts add up to the views. -/
structure BreakdownsAddUp (stats : ViewStats) : Prop where
  platforms : ∀ type ∈ [PlatformType.windows, .linux, .macOs, .other],
    ∀ group ∈ stats.platforms.byType.lookup type, 0 < group.views → group.partViews.sum = group.views
  browsers : ∀ type, ∀ group ∈ stats.browsers.byType.lookup type, 0 < group.views →
    group.partViews.sum = group.views

theorem exact_flatMap {τ : Type} [DecidableEq τ] {rows : List Visit}
    {partsOf : Visit → List (GroupStats τ)} {column : Visit → τ → ℤ} {type : τ}
    (hsum : ∀ visit ∈ rows, viewsSum (partsOf visit) type = column visit type)
    (hcolumn : ∀ visit ∈ rows, column visit type ≤ visit.total)
    (hparts : ∀ visit ∈ rows, ∀ part ∈ partsOf visit, part.type = type → part.Exact)
    (hsmall : (rows.map Visit.total).sum < 2 ^ 31) :
    ∀ group ∈ (addGroups ∅ (rows.flatMap partsOf)).byType.lookup type, group.Exact := by
  have hexact : ∀ part ∈ rows.flatMap partsOf, part.type = type → part.Exact := by
    intro part hpart
    obtain ⟨visit, hvisit, hpart⟩ := List.mem_flatMap.mp hpart
    exact hparts visit hvisit part hpart
  have hle : viewsSum (rows.flatMap partsOf) type ≤ (rows.map Visit.total).sum := by
    rw [viewsSum_flatMap hsum]
    exact List.sum_le_sum hcolumn
  have hempty : (∅ : Groups τ).viewsOf type = 0 := Groups.viewsOf_none rfl
  exact addGroups_exact (fun _ h => nomatch h) hexact (by omega)

/-- A window of sorted rows. -/
theorem breakdown_addVisits {env : Globalization} {rows : List Visit} {stats : ViewStats}
    (h : addVisits env rows = .ret stats) (hsorted : ∀ visit ∈ rows, visit.Sorted env)
    (hsmall : (rows.map Visit.total).sum < 2 ^ 31) : BreakdownsAddUp stats := by
  obtain ⟨hplatforms, hbrowsers⟩ := groups_addVisits h
  have hreturns : ∀ visit ∈ rows, (platformParts env visit).Returns ∧ (browserParts visit).Returns :=
    fun _ hvisit => parts_returns h hvisit
  constructor
  · intro type htype group hgroup _
    rw [hplatforms] at hgroup
    refine (exact_flatMap (fun visit hvisit => (platformPartsOf_views (hreturns visit hvisit).1).2 type)
      (fun visit hvisit => (hsorted visit hvisit).platformColumns type) ?_ hsmall group hgroup).sum
    intro visit hvisit part hpart hpartType
    obtain ⟨parts, hparts⟩ := (hreturns visit hvisit).1
    rw [platformPartsOf, hparts, Exec.getD_ret] at hpart
    obtain ⟨sorted, hread, hmem⟩ := platformParts_readIn hparts
    have hpart' : part ∈ sorted := by
      refine hmem part hpart ?_ ?_ <;> rw [hpartType] <;> rintro rfl <;> simp at htype
    exact hread.exact (by simp [platformClasses]) (hsorted visit hvisit).platformNames
      (hsorted visit hvisit).platforms part hpart'
  · intro type group hgroup _
    rw [hbrowsers] at hgroup
    refine (exact_flatMap (fun visit hvisit => (browserPartsOf_views (hreturns visit hvisit).2).2 type)
      (fun visit hvisit => (hsorted visit hvisit).browserColumns type) ?_ hsmall group hgroup).sum
    intro visit hvisit part hpart _
    obtain ⟨parts, hparts⟩ := (hreturns visit hvisit).2
    rw [browserPartsOf, hparts, Exec.getD_ret] at hpart
    exact (browserParts_readIn (hsorted visit hvisit).keys hparts).exact (by decide)
      (hsorted visit hvisit).browserNames (hsorted visit hvisit).browsers part hpart

/-! ## Runs -/

/-- The visit fits the row that `Add` has found, or may open one if there is none. -/
def Table.Accepts (env : Globalization) (table : Table) (args : AddArgs) : Option Visit → Prop
  | none => args.Opens env
  | some existing => ∀ row ∈ table.visits.lookup existing.id, row.Accepts env args

instance (env : Globalization) (table : Table) (args : AddArgs) (existing : Option Visit) :
    Decidable (table.Accepts env args existing) :=
  match existing with
  | none => inferInstanceAs (Decidable (args.Opens env))
  | some existing =>
    inferInstanceAs (Decidable (∀ row ∈ table.visits.lookup existing.id, row.Accepts env args))

/-- A visit is written into a row that it fits, and its URL has less than `2^31 - 1` visits. -/
def FitsRow (env : Globalization) (s : State) : Event → Prop
  | .write n _ => ∀ call ∈ s.calls n,
      s.completed.count call.args.urlId + 1 < 2 ^ 31 ∧ s.table.Accepts env call.args call.existing
  | _ => True

instance (env : Globalization) (s : State) (e : Event) : Decidable (FitsRow env s e) :=
  match e with
  | .write n _ => inferInstanceAs (Decidable (∀ call ∈ s.calls n,
      s.completed.count call.args.urlId + 1 < 2 ^ 31 ∧ s.table.Accepts env call.args call.existing))
  | .read .. => inferInstanceAs (Decidable True)
  | .fail _ => inferInstanceAs (Decidable True)

/-- Rows are sorted into classes, and no URL has more visits than an `int` counts. -/
structure SortedState (env : Globalization) (s : State) : Prop where
  rows : s.table.All (Visit.Sorted env)
  small : ∀ urlId, s.completed.count urlId < 2 ^ 31

/-- The row that is written stays sorted, the others are old ones. -/
theorem sorted_write {env : Globalization} {table table' : Table} {existing : Option Visit}
    {args : AddArgs} {now : ℤ} (hsorted : table.All (Visit.Sorted env))
    (hfits : table.Accepts env args existing) (h : table.write existing args now = some table') :
    table'.All (Visit.Sorted env) := by
  intro id visit hvisit
  rcases Table.lookup_write h hvisit with hold | ⟨rfl, -, rfl, -⟩ | ⟨old, hold, rfl, hid⟩
  · exact hsorted id visit hold
  · exact sorted_insert hfits _ _
  · obtain ⟨visit, rfl, rfl⟩ := Option.map_eq_some_iff.mp hid
    exact sorted_update (hsorted visit.id old hold) (hfits old hold)

theorem sortedState_step {env : Globalization} {s t : State} {e : Event} (hs : SortedState env s)
    (hok : FitsRow env s e) (h : step env s e = some t) : SortedState env t := by
  rcases step_cases h with ⟨n, urlId, country, userAgent, referrerHost, now, i, existing, rfl, -, rfl⟩ |
    ⟨n, now, call, table, rfl, hcall, hw, rfl⟩ | ⟨n, rfl, rfl⟩
  · exact ⟨hs.rows, hs.small⟩
  · obtain ⟨hroom, hfits⟩ := hok call hcall
    refine ⟨sorted_write hs.rows hfits hw, ?_⟩
    intro urlId
    have hsmall := hs.small urlId
    rw [List.count_append, List.count_singleton]
    split_ifs with hurl
    · rw [← eq_of_beq hurl]
      exact hroom
    · exact hsmall
  · exact ⟨hs.rows, hs.small⟩

/-! ## Main theorem -/

/-- **Breakdowns add up** if every visit fits its row. -/
theorem breakdown_addUp (env : Globalization) {es : List Event} {s : State}
    (h : Run (step env) (FitsRow env) .init es s) {shardId now : ℤ} {url : Url} {stats : UrlStats}
    (hrows : url.visits.Perm (s.table.ofUrl url.id)) (hconvert : convert env shardId now url = .ret stats)
    (period : Period) : BreakdownsAddUp (stats.window period) := by
  have hsorted : SortedState env s := h.invariant
    ⟨by simp [Table.All, State.init, Table.empty], by simp [State.init]⟩
    fun s e t hs hok hstep => sortedState_step hs hok hstep
  have hinv : Inv s := h.always.invariant inv_init fun s e t hi _ hs => inv_step env hi hs
  have hrow : ∀ visit ∈ url.visits, visit.Sorted env := by
    intro visit hvisit
    obtain ⟨⟨id, hid⟩, -⟩ := Table.mem_ofUrl.mp (hrows.subset hvisit)
    exact hsorted.rows id visit hid
  have htotal : (url.visits.map Visit.total).sum < 2 ^ 31 := by
    have hsmall := hsorted.small url.id
    rw [(hrows.map _).sum_eq, Table.sum_ofUrl]
    have hcounted := hinv.counted url.id
    unfold totalOf at hcounted
    omega
  have hnonneg : ∀ visit ∈ url.visits, 0 ≤ Number.views.column visit :=
    fun visit hvisit => (hrow visit hvisit).total
  have hwindow : ((period.rows now url.visits).map Visit.total).sum ≤ (url.visits.map Visit.total).sum := by
    have hmono : Number.views.sum (period.rows now url.visits) ≤
        Number.views.sum (Period.allTime.rows now url.visits) :=
      Number.sum_mono hnonneg fun _ _ => decide_eq_true trivial
    rwa [Period.rows_allTime] at hmono
  exact breakdown_addVisits (convert_window hconvert period)
    (fun visit hvisit => hrow visit (List.mem_of_mem_filter hvisit)) (by omega)

/-- Visits by Windows and Chrome, by Linux and by a robot, in one row. -/
def sortedVisits : List Event :=
  [.read 0 5 none (some (.parse ⟨.browser, some (.windows, "Windows 10"), some "Chrome",
      some "120.0", none⟩)) none 0 0, .write 0 0,
    .read 1 5 none (some (.parse ⟨.browser, some (.linux, "Debian"), some "Firefox",
      some "115.0", none⟩)) none 60 0, .write 1 60,
    .read 2 5 none (some (.parse ⟨.robot, none, some "Googlebot", none, none⟩)) none 60 0,
    .write 2 60]

theorem breakdown_addUp_sortedVisits :
    ∃ s stats, Run (step .invariantMode) (FitsRow .invariantMode) .init sortedVisits s ∧
      convert .invariantMode 0 60 ⟨5, "https://example.com", 1, 3, s.table.ofUrl 5, 0⟩ = .ret stats ∧
      BreakdownsAddUp stats.allTime := by
  have hrun : Run (step .invariantMode) (FitsRow .invariantMode) .init sortedVisits
      ((sortedVisits.foldlM (guarded (step .invariantMode) (FitsRow .invariantMode)) .init).getD .init) :=
    run_iff_foldlM_guarded.mpr rfl
  have hreturns : (convert .invariantMode 0 60 ⟨5, "https://example.com", 1, 3,
      ((sortedVisits.foldlM (guarded (step .invariantMode) (FitsRow .invariantMode)) .init).getD
        .init).table.ofUrl 5, 0⟩).Returns := by decide +kernel
  obtain ⟨stats, hstats⟩ := hreturns
  exact ⟨_, stats, hrun, hstats,
    breakdown_addUp .invariantMode hrun (List.Perm.refl _) hstats .allTime⟩

/-- A visit by another platform and one by Android, in one row. -/
def otherAndAndroid : List Event :=
  [.read 0 5 none (some (.parse ⟨.browser, some (.other, "Symbian"), none, none, none⟩)) none 0 0,
    .write 0 0,
    .read 1 5 none (some (.parse ⟨.browser, some (.android, "Android"), none, none, none⟩)) none 60 0,
    .write 1 60]

/-- One view by another platform, with two variants. -/
theorem not_breakdown_android :
    ∃ s stats, Run (step .invariantMode) always .init otherAndAndroid s ∧
      convert .invariantMode 0 60 ⟨5, "https://example.com", 1, 2, s.table.ofUrl 5, 0⟩ = .ret stats ∧
      ((stats.allTime.platforms.byType.lookup .other).map fun group =>
        (group.views, group.partViews.sum)) = some (1, 2) ∧
      ¬ BreakdownsAddUp stats.allTime := by
  have hrun : Run (step .invariantMode) always .init otherAndAndroid
      ((otherAndAndroid.foldlM (step .invariantMode) .init).getD .init) := run_iff_foldlM.mpr rfl
  have hgroup : (fun stats : UrlStats =>
      (stats.allTime.platforms.byType.lookup .other).map fun group =>
        (group.views, group.partViews.sum)) <$>
      convert .invariantMode 0 60 ⟨5, "https://example.com", 1, 2,
        ((otherAndAndroid.foldlM (step .invariantMode) .init).getD .init).table.ofUrl 5, 0⟩ =
      .ret (some (1, 2)) := by decide +kernel
  obtain ⟨stats, hstats, hother⟩ := Exec.map_eq_ret_iff.mp hgroup
  refine ⟨_, stats, hrun, hstats, hother, ?_⟩
  intro haddUp
  obtain ⟨group, hlookup, hviews⟩ := Option.map_eq_some_iff.mp hother
  obtain ⟨hone, htwo⟩ := Prod.mk.inj hviews
  have hsum := haddUp.platforms .other (by simp) group hlookup (by omega)
  omega

end Shortener.Stats
