import Shortener.Stats.Sums

/-!
# The types of visitors

`AddTypes` passes the column `BrowserType` to `AddType` for all three types, while its
conditions and the other helpers of `AddVisit` read the column of the type itself. So
`Types` counts, for a type, the browser visits of the rows that have a visitor of this type.

* `value_types`: what `Types` holds.
* `types_correct_iff`: when it holds the sums of the columns.
* `not_types_correct_robot`: one robot is enough for it not to.
-/

namespace Shortener.Stats

open Shortener.DotNet

/-- The column of a type of visitors. -/
def Visit.typeColumn (visit : Visit) : UserAgentType → ℤ
  | .browser => visit.browserType
  | .robot => visit.robotType
  | .unknown => visit.unknownType

/-- `Total` counts each visit under one type. -/
def Visit.Typed (visit : Visit) : Prop :=
  visit.total = visit.browserType + visit.robotType + visit.unknownType

/-- The sum of the column of a type. -/
def typeSum (rows : List Visit) (type : UserAgentType) : ℤ :=
  (rows.map fun visit => visit.typeColumn type).sum

/-- What is passed to `AddType` for a type. -/
def passed (type : UserAgentType) (visit : Visit) : ℤ :=
  if visit.typeColumn type > 0 then visit.browserType else 0

/-- `Types` holds the sums of the columns, and accounts for all views if the rows do. -/
structure TypesCorrect (rows : List Visit) (stats : ViewStats) : Prop where
  sums : ∀ type, (stats.types.lookup type).getD 0 = typeSum rows type
  views : (∀ visit ∈ rows, visit.Typed) → stats.types.sum = stats.views

/-- In the rows with a visitor of a type, the column `BrowserType` adds up to the same `int`
    as the column of the type, and no sum overflows. -/
structure TypesFit (rows : List Visit) : Prop where
  passed : ∀ type, (2 ^ 32 : ℤ) ∣
    ((rows.filter fun visit => visit.typeColumn type > 0).map fun visit =>
      visit.browserType - visit.typeColumn type).sum
  small : ∀ type, typeSum rows type < 2 ^ 31
  total : (∀ visit ∈ rows, visit.Typed) → (rows.map Visit.total).sum < 2 ^ 31

/-! ## What `Types` holds -/

theorem typeCounts_apply (visit : Visit) (type : UserAgentType) :
    typeCounts visit type =
      if visit.typeColumn type > 0 then ((⟨visit.browserType⟩ : Wrapped) : Count) else 0 := by
  have hone : ∀ (t : UserAgentType) (column : ℤ),
      (if column > 0 then Dictionary.single t visit.browserType else 0) type =
        if type = t then (if column > 0 then ((⟨visit.browserType⟩ : Wrapped) : Count) else 0) else 0 := by
    intro t column
    by_cases hcolumn : column > 0
    · rw [if_pos hcolumn, if_pos hcolumn, Dictionary.single, Pi.single_apply]
    · rw [if_neg hcolumn, if_neg hcolumn, ite_self]
      rfl
  unfold typeCounts
  rw [Pi.add_apply, Pi.add_apply, hone, hone, hone]
  cases type <;> simp [Visit.typeColumn]

theorem value_typeCounts (visit : Visit) (type : UserAgentType) :
    (typeCounts visit type).value = passed type visit := by
  rw [typeCounts_apply, passed]
  split_ifs <;> rfl

theorem value_types {env : Globalization} {rows : List Visit} {stats : ViewStats}
    (h : addVisits env rows = .ret stats) (hints : ∀ visit ∈ rows, IsInt32 visit.browserType)
    (type : UserAgentType) :
    (stats.types.lookup type).getD 0 = toInt32 (rows.map (passed type)).sum := by
  have hpassed : ∀ c ∈ rows.map fun visit => typeCounts visit type, IsInt32 c.value := by
    intro c hc
    obtain ⟨visit, hvisit, rfl⟩ := List.mem_map.mp hc
    rw [value_typeCounts, passed]
    split_ifs
    · exact hints visit hvisit
    · decide
  have hcounts : stats.types.counts type = (rows.map fun visit => typeCounts visit type).sum := by
    rw [types_addVisits h, Pi.list_sum_apply, List.map_map]
    rfl
  rw [← Dictionary.value_counts, hcounts, Count.value_sum hpassed, List.map_map]
  exact congrArg (fun values => toInt32 values.sum)
    (List.map_congr_left fun visit _ => value_typeCounts visit type)

/-- There are three types. -/
theorem sum_types (types : Dictionary UserAgentType ℤ) :
    types.sum = (types.lookup .browser).getD 0 + (types.lookup .robot).getD 0 +
      (types.lookup .unknown).getD 0 := by
  have hnone : ∀ type, (((types.erase .browser).erase .robot).erase .unknown).lookup type = none := by
    intro type
    cases type with
    | browser =>
      rw [AList.lookup_erase_ne (by decide), AList.lookup_erase_ne (by decide), AList.lookup_erase]
    | robot => rw [AList.lookup_erase_ne (by decide), AList.lookup_erase]
    | unknown => rw [AList.lookup_erase]
  have hempty : ((types.erase .browser).erase .robot).erase .unknown = ∅ :=
    Dictionary.eq_empty_of_lookup hnone
  have helim : ∀ value : Option ℤ, value.elim 0 id = value.getD 0 := by
    intro value
    cases value <;> rfl
  rw [Dictionary.sum, Dictionary.sumOf_eq_erase id types .browser,
    Dictionary.sumOf_eq_erase id (types.erase .browser) .robot,
    Dictionary.sumOf_eq_erase id ((types.erase .browser).erase .robot) .unknown, hempty,
    AList.lookup_erase_ne (by decide), AList.lookup_erase_ne (by decide),
    AList.lookup_erase_ne (by decide), helim, helim, helim, Dictionary.sumOf_empty]
  ring

/-! ## Main theorem -/

theorem toInt32_eq_iff {x y : ℤ} : toInt32 x = y ↔ IsInt32 y ∧ (2 ^ 32 : ℤ) ∣ x - y := by
  unfold toInt32 IsInt32
  rw [Int.bmod_eq_iff (by norm_num), ← dvd_neg, neg_sub]
  push_cast
  constructor
  · rintro ⟨hlow, hhigh, hdvd⟩
    exact ⟨⟨by omega, by omega⟩, hdvd⟩
  · rintro ⟨⟨hlow, hhigh⟩, hdvd⟩
    exact ⟨by omega, by omega, hdvd⟩

/-- Rows without a visitor of the type add nothing to either sum. -/
theorem sum_passed_sub {rows : List Visit} {type : UserAgentType}
    (hnonneg : ∀ visit ∈ rows, 0 ≤ visit.typeColumn type) :
    (rows.map (passed type)).sum - typeSum rows type =
      ((rows.filter fun visit => visit.typeColumn type > 0).map fun visit =>
        visit.browserType - visit.typeColumn type).sum := by
  unfold typeSum
  induction rows with
  | nil => rfl
  | cons visit rows ih =>
    obtain ⟨hvisit, hrows⟩ := List.forall_mem_cons.mp hnonneg
    have ih := ih hrows
    rw [List.map_cons, List.map_cons, List.sum_cons, List.sum_cons, passed, List.filter_cons]
    by_cases hpos : visit.typeColumn type > 0
    · rw [if_pos hpos, if_pos (decide_eq_true hpos), List.map_cons, List.sum_cons]
      omega
    · rw [if_neg hpos, if_neg (by simpa using hpos)]
      omega

/-- If the rows account for all their views, so do the columns. -/
theorem sum_typed {rows : List Visit} (h : ∀ visit ∈ rows, visit.Typed) :
    (rows.map Visit.total).sum = typeSum rows .browser + typeSum rows .robot + typeSum rows .unknown := by
  unfold typeSum
  induction rows with
  | nil => rfl
  | cons visit rows ih =>
    obtain ⟨hvisit, hrows⟩ := List.forall_mem_cons.mp h
    have ih := ih hrows
    simp only [List.map_cons, List.sum_cons, Visit.typeColumn] at ih ⊢
    unfold Visit.Typed at hvisit
    omega

theorem types_correct_addVisits {env : Globalization} {rows : List Visit} {stats : ViewStats}
    (h : addVisits env rows = .ret stats)
    (hcounters : ∀ visit ∈ rows, ∀ type, 0 ≤ visit.typeColumn type ∧ visit.typeColumn type < 2 ^ 31) :
    TypesCorrect rows stats ↔ TypesFit rows := by
  have hints : ∀ visit ∈ rows, IsInt32 visit.browserType := by
    intro visit hvisit
    obtain ⟨hlow, hhigh⟩ := hcounters visit hvisit .browser
    exact ⟨by simp only [Visit.typeColumn] at hlow; omega, hhigh⟩
  have hnonneg : ∀ type, 0 ≤ typeSum rows type := by
    intro type
    refine List.sum_nonneg (List.forall_mem_map.mpr ?_)
    intro visit hvisit
    exact (hcounters visit hvisit type).1
  have hsums : (∀ type, (stats.types.lookup type).getD 0 = typeSum rows type) ↔
      ∀ type, typeSum rows type < 2 ^ 31 ∧ (2 ^ 32 : ℤ) ∣
        ((rows.filter fun visit => visit.typeColumn type > 0).map fun visit =>
          visit.browserType - visit.typeColumn type).sum := by
    refine forall_congr' fun type => ?_
    rw [value_types h hints, toInt32_eq_iff, sum_passed_sub fun visit hvisit =>
      (hcounters visit hvisit type).1]
    have := hnonneg type
    refine and_congr_left fun _ => ?_
    unfold IsInt32
    omega
  have hviews : (∀ type, (stats.types.lookup type).getD 0 = typeSum rows type) →
      (∀ visit ∈ rows, visit.Typed) →
        (stats.types.sum = stats.views ↔ (rows.map Visit.total).sum < 2 ^ 31) := by
    intro hsums htyped
    have htotal := sum_typed htyped
    have hbrowser := hnonneg .browser
    have hrobot := hnonneg .robot
    have hunknown := hnonneg .unknown
    rw [sum_types, hsums, hsums, hsums, views_addVisits h, ← htotal, eq_comm, toInt32_eq_iff]
    unfold IsInt32
    simp only [sub_self, dvd_zero, and_true]
    omega
  constructor
  · intro hcorrect
    have hall := hsums.mp hcorrect.sums
    exact ⟨fun type => (hall type).2, fun type => (hall type).1,
      fun htyped => (hviews hcorrect.sums htyped).mp (hcorrect.views htyped)⟩
  · intro hfit
    have hall := hsums.mpr fun type => ⟨hfit.small type, hfit.passed type⟩
    exact ⟨hall, fun htyped => (hviews hall htyped).mpr (hfit.total htyped)⟩

/-- **When `Types` is right**, window by window. -/
theorem types_correct_iff {env : Globalization} {shardId now : ℤ} {url : Url} {stats : UrlStats}
    (hcounters : ∀ visit ∈ url.visits, ∀ type,
      0 ≤ visit.typeColumn type ∧ visit.typeColumn type < 2 ^ 31)
    (h : convert env shardId now url = .ret stats) (period : Period) :
    TypesCorrect (period.rows now url.visits) (stats.window period) ↔
      TypesFit (period.rows now url.visits) :=
  types_correct_addVisits (convert_window h period)
    fun visit hvisit => hcounters visit (List.mem_of_mem_filter hvisit)

/-- A row with a visit by a browser and one by a robot. -/
def bothRow : Visit :=
  Visit.update
    (.insert 1 ⟨5, "de", some ⟨.browser, none, some ⟨.chrome, "Chrome", some "120.0"⟩, none⟩, none⟩ 0)
    ⟨5, "de", some ⟨.robot, none, some ⟨.other, "Googlebot", some "2.1"⟩, none⟩, none⟩

/-- A row with two visits by browsers and one by an unknown visitor, and one the other way. -/
def unknownRows : List Visit :=
  [{ bothRow with id := 2, browserType := 2, robotType := 0, unknownType := 1, total := 3 },
    { bothRow with id := 3, browserType := 1, robotType := 0, unknownType := 2, total := 3 }]

/-- Rows with visitors of all types, for which the sums agree. -/
def mixedRows : List Visit := bothRow :: unknownRows

theorem types_correct_mixed :
    ∃ stats, convert .invariantMode 0 0 ⟨5, "https://example.com", 1, 8, mixedRows, 0⟩ = .ret stats ∧
      TypesCorrect (Period.day.rows 0 mixedRows) stats.lastDay ∧
      (stats.lastDay.types.lookup .browser).getD 0 = 4 ∧
      (stats.lastDay.types.lookup .robot).getD 0 = 1 ∧
      (stats.lastDay.types.lookup .unknown).getD 0 = 3 := by
  have hreturns : (convert .invariantMode 0 0
      ⟨5, "https://example.com", 1, 8, mixedRows, 0⟩).Returns := by decide +kernel
  obtain ⟨stats, hstats⟩ := hreturns
  have hcounters : ∀ visit ∈ mixedRows, ∀ type,
      0 ≤ visit.typeColumn type ∧ visit.typeColumn type < 2 ^ 31 := by
    intro visit hvisit type
    revert visit
    cases type <;> decide
  have hfit : TypesFit (Period.day.rows 0 mixedRows) := by
    rw [show Period.day.rows 0 mixedRows = mixedRows from rfl]
    constructor
    · intro type
      cases type <;> decide +kernel
    · intro type
      cases type <;> decide +kernel
    · intro _
      decide +kernel
  have hcorrect : TypesCorrect (Period.day.rows 0 mixedRows) stats.lastDay :=
    (types_correct_iff hcounters hstats .day).mpr hfit
  exact ⟨stats, hstats, hcorrect, hcorrect.sums .browser, hcorrect.sums .robot,
    hcorrect.sums .unknown⟩

/-- A row with one visit, by a robot. -/
def robotRow : Visit :=
  .insert 1 ⟨5, "de", some ⟨.robot, none, some ⟨.other, "Googlebot", some "2.1"⟩, none⟩, none⟩ 0

/-- `Types` counts no robot. -/
theorem not_types_correct_robot :
    ∃ stats, convert .invariantMode 0 0 ⟨5, "https://example.com", 1, 1, [robotRow], 0⟩ = .ret stats ∧
      (stats.lastDay.types.lookup .robot).getD 0 = 0 ∧ typeSum [robotRow] .robot = 1 ∧
      robotRow.Typed ∧ ¬ TypesCorrect (Period.day.rows 0 [robotRow]) stats.lastDay := by
  have hreturns : (convert .invariantMode 0 0
      ⟨5, "https://example.com", 1, 1, [robotRow], 0⟩).Returns := by decide +kernel
  obtain ⟨stats, hstats⟩ := hreturns
  have hday : addVisits .invariantMode [robotRow] = .ret stats.lastDay := convert_window hstats .day
  have hrobot : (stats.lastDay.types.lookup .robot).getD 0 = 0 := by
    rw [value_types hday (by decide)]
    decide
  refine ⟨stats, hstats, hrobot, by decide, by unfold Visit.Typed; decide, ?_⟩
  intro hcorrect
  have hsum := hcorrect.sums .robot
  rw [hrobot] at hsum
  exact absurd hsum (by decide)

end Shortener.Stats
