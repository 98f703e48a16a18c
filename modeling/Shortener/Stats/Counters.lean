import Shortener.Stats.Repository

/-!
# No visit is lost or counted twice

`VisitRepository.Add` is a query followed by a statement, without a transaction.
Concurrent calls may insert parallel rows for one hour, but every statement counts
its visit once, and in each group of counters consistently.

* `Visit.Balanced`: how the counters of a row relate to its `Total`.
* `visits_counted`: in every reachable state the `Total`s of a URL add up to its
  completed calls, and every row is balanced.
-/

namespace Shortener.Stats

open Shortener.Common Shortener.DotNet

/-! ## Counters of one row -/

/-- Each family of counters of the row adds up to its total, or to no more. -/
structure Visit.Balanced (visit : Visit) : Prop where
  types : visit.total = visit.browserType + visit.robotType + visit.unknownType
  countries : visit.total = visit.countries.sum
  browsers : visit.chrome + visit.edge + visit.firefox + visit.internetExplorer + visit.opera +
    visit.safari + visit.otherBrowser = visit.browsers.sum
  mobileDeviceTypes : visit.mobileDeviceTypes.sum ≤ visit.total
  referrers : visit.referrers.sum ≤ visit.total
  platforms : visit.windows + visit.linux + visit.ios + visit.macOs + visit.android +
    visit.otherPlatform ≤ visit.total

/-- The number of visits a counter column gets. -/
def present {α : Type} (key : Option α) : ℤ := key.elim 0 fun _ => 1

theorem present_le_one {α : Type} (key : Option α) : present key ≤ 1 := by
  cases key <;> simp [present]

theorem sum_counter (key : Option String) : (counter key).sum = present key := by
  cases key <;> simp [counter, present]

theorem sum_count (column : Dictionary String ℤ) (key : Option String) :
    (count column key).sum = column.sum + present key := by
  cases key with
  | none => simp [count, present]
  | some key => exact Dictionary.sum_increment column key

/-- A visit is of exactly one type. -/
theorem flag_type (args : AddArgs) :
    flag (args.type = .browser) + flag (args.type = .robot) + flag (args.type = .unknown) = 1 := by
  cases args.type <;> rfl

/-- A visit with a browser is counted for exactly one browser. -/
theorem flag_browser (args : AddArgs) :
    flag (args.hasBrowser .chrome) + flag (args.hasBrowser .edge) +
      flag (args.hasBrowser .firefox) + flag (args.hasBrowser .internetExplorer) +
      flag (args.hasBrowser .opera) + flag (args.hasBrowser .safari) +
      flag (args.hasBrowser .other) = present (args.browser.map Browser.browserVersion) := by
  cases h : args.browser with
  | none => simp [AddArgs.hasBrowser, flag, present, h]
  | some browser =>
    obtain ⟨type, name, version⟩ := browser
    cases type <;> simp [AddArgs.hasBrowser, flag, present, h]

/-- A visit is counted for at most one platform. -/
theorem flag_platform (args : AddArgs) :
    flag (args.hasPlatform .windows) + flag (args.hasPlatform .linux) +
      flag (args.hasPlatform .ios) + flag (args.hasPlatform .macOs) +
      flag (args.hasPlatform .android) + flag (args.hasPlatform .other) = present args.platform := by
  cases h : args.platform with
  | none => simp [AddArgs.hasPlatform, flag, present, h]
  | some platform =>
    obtain ⟨type, name⟩ := platform
    cases type <;> simp [AddArgs.hasPlatform, flag, present, h]

theorem balanced_insert (id : ℤ) (args : AddArgs) (now : ℤ) :
    (Visit.insert id args now).Balanced where
  types := (flag_type args).symm
  countries := (sum_counter (some args.country)).symm
  browsers := (flag_browser args).trans (sum_counter _).symm
  mobileDeviceTypes := (sum_counter _).trans_le (present_le_one _)
  referrers := (sum_counter _).trans_le (present_le_one _)
  platforms := (flag_platform args).trans_le (present_le_one _)

theorem balanced_update {visit : Visit} (h : visit.Balanced) (args : AddArgs) :
    (visit.update args).Balanced where
  types := by
    have := h.types
    have := flag_type args
    simp only [Visit.update]
    omega
  countries := by
    have := h.countries
    have := sum_count visit.countries (some args.country)
    simp only [Visit.update, present, Option.elim_some] at *
    omega
  browsers := by
    have := h.browsers
    have := flag_browser args
    simp only [Visit.update, sum_count]
    omega
  mobileDeviceTypes := by
    have := h.mobileDeviceTypes
    have := present_le_one args.mobileDeviceType
    simp only [Visit.update, sum_count]
    omega
  referrers := by
    have := h.referrers
    have := present_le_one args.referrerHost
    simp only [Visit.update, sum_count]
    omega
  platforms := by
    have := h.platforms
    have := flag_platform args
    have := present_le_one args.platform
    simp only [Visit.update]
    omega

/-! ## Invariant -/

/-- Rows have unique keys and are balanced, and calls know their rows. -/
structure Inv (s : State) : Prop where
  keyed : s.table.WellKeyed
  balanced : s.table.All Visit.Balanced
  /-- the row a call is going to update is there -/
  existing : ∀ n call visit, s.calls n = some call → call.existing = some visit →
    ∃ row, s.table.visits.lookup visit.id = some row ∧ row.urlId = call.args.urlId
  counted : ∀ urlId, s.table.visits.sumOf (totalOf urlId) = s.completed.count urlId

theorem inv_init : Inv .init :=
  ⟨by simp [Table.WellKeyed, State.init, Table.empty],
    by simp [Table.All, State.init, Table.empty], by simp [State.init],
    by simp [State.init, Table.empty]⟩

/-- Rows stay where they are and keep their URL. -/
theorem lookup_write_of_lookup {table table' : Table} (hk : table.WellKeyed)
    {existing : Option Visit} {args : AddArgs} {now : ℤ}
    (h : table.write existing args now = some table') {id : ℤ} {row : Visit}
    (hrow : table.visits.lookup id = some row) :
    ∃ row', table'.visits.lookup id = some row' ∧ row'.urlId = row.urlId := by
  cases existing with
  | none =>
    have hne : id ≠ table.sequence + 1 := by
      rintro rfl
      simp [hk.lookup_new] at hrow
    exact ⟨row, by rw [(Table.insert_eq_some h).2, AList.lookup_insert_ne hne, hrow], rfl⟩
  | some visit =>
    cases hold : table.visits.lookup visit.id with
    | none =>
      simp only [Table.write, Table.update, hold, Option.some.injEq] at h
      exact ⟨row, h ▸ hrow, rfl⟩
    | some old =>
      rw [(Table.update_eq_some hold h).2]
      by_cases hid : id = visit.id
      · subst hid
        obtain rfl := Option.some.inj (hold.symm.trans hrow)
        exact ⟨_, AList.lookup_insert _, rfl⟩
      · exact ⟨row, by rw [AList.lookup_insert_ne hid, hrow], rfl⟩

/-- A write into a row of its URL counts its visit once, for its URL. -/
theorem total_write {table table' : Table} (hk : table.WellKeyed) {existing : Option Visit}
    {args : AddArgs} {now : ℤ}
    (hexisting : ∀ visit, existing = some visit →
      ∃ row, table.visits.lookup visit.id = some row ∧ row.urlId = args.urlId)
    (h : table.write existing args now = some table') (urlId : ℤ) :
    table'.visits.sumOf (totalOf urlId) =
      table.visits.sumOf (totalOf urlId) + flag (args.urlId = urlId) := by
  rcases Table.sumOf_write hk (totalOf urlId) h with ⟨-, hsum⟩ | ⟨visit, hv, hsum⟩
  · rw [hsum]
    rfl
  · obtain ⟨row, hrow, hurl⟩ := hexisting visit hv
    rw [hsum row hrow, ← hurl]
    simp only [totalOf, flag, Visit.update]
    split_ifs <;> omega

theorem inv_step (env : Globalization) {s t : State} {e : Event} (hi : Inv s)
    (h : step env s e = some t) : Inv t := by
  rcases step_cases h with ⟨n, urlId, country, userAgent, referrerHost, now, i, existing, -, hlast, rfl⟩ |
    ⟨n, now, call, table, -, hn, hw, rfl⟩ | ⟨n, -, rfl⟩
  · refine ⟨hi.keyed, hi.balanced, ?_, hi.counted⟩
    intro m call visit hm hv
    by_cases hmn : m = n
    · subst hmn
      simp only [Function.update_self, Option.some.injEq] at hm
      subst hm hv
      obtain ⟨⟨id, hid⟩, hurl⟩ := Table.mem_ofUrl.mp (Table.getLastHour_some hlast).1
      exact ⟨visit, by rw [(hi.keyed id visit hid).1, hid], hurl⟩
    · exact hi.existing m call visit ((Function.update_of_ne hmn ..).symm.trans hm) hv
  · refine ⟨hi.keyed.write hw,
      hi.balanced.write (fun id => balanced_insert id _ _) (fun _ hb => balanced_update hb _) hw,
      ?_, ?_⟩
    · intro m call' visit hm hv
      have hmn : m ≠ n := by
        rintro rfl
        simp at hm
      obtain ⟨row, hrow, hurl⟩ :=
        hi.existing m call' visit ((Function.update_of_ne hmn ..).symm.trans hm) hv
      obtain ⟨row', hrow', hurl'⟩ := lookup_write_of_lookup hi.keyed hw hrow
      exact ⟨row', hrow', hurl'.trans hurl⟩
    · intro urlId
      have htotal := total_write hi.keyed (fun visit hv => hi.existing n call visit hn hv) hw urlId
      rw [htotal, hi.counted, List.count_append, List.count_singleton]
      simp only [flag, beq_iff_eq]
      split_ifs <;> simp
  · refine ⟨hi.keyed, hi.balanced, ?_, hi.counted⟩
    intro m call visit hm hv
    have hmn : m ≠ n := by
      rintro rfl
      simp at hm
    exact hi.existing m call visit ((Function.update_of_ne hmn ..).symm.trans hm) hv

/-! ## Main theorem -/

/-- **Every visit is counted once.** -/
theorem visits_counted (env : Globalization) {es : List Event} {s : State}
    (h : Run (step env) always .init es s) :
    (∀ urlId, ((s.table.ofUrl urlId).map Visit.total).sum = s.completed.count urlId) ∧
      ∀ urlId, ∀ visit ∈ s.table.ofUrl urlId, visit.Balanced := by
  have hinv : Inv s := h.invariant inv_init fun s e t hi _ hs => inv_step env hi hs
  constructor
  · intro urlId
    rw [Table.sum_ofUrl]
    exact hinv.counted urlId
  · intro urlId visit hmem
    obtain ⟨⟨id, hid⟩, -⟩ := Table.mem_ofUrl.mp hmem
    exact hinv.balanced id visit hid

/-- Two calls find no row and insert parallel ones; a third one updates the newer row. -/
def parallelAdds : List Event :=
  [.read 0 5 (some "DE") none none 0 0, .read 1 5 none none (some "Example.org") 0 0,
    .write 0 0, .write 1 0, .read 0 5 (some "FR") none none 60 0, .write 0 60]

theorem visits_counted_parallelAdds :
    ∃ s : State, s.completed = [5, 5, 5] ∧
      (∀ urlId, ((s.table.ofUrl urlId).map Visit.total).sum = s.completed.count urlId) ∧
      ∀ urlId, ∀ visit ∈ s.table.ofUrl urlId, visit.Balanced := by
  have hrun : Run (step .invariantMode) always .init parallelAdds
      ((parallelAdds.foldlM (step .invariantMode) .init).getD .init) := run_iff_foldlM.mpr rfl
  exact ⟨_, rfl, visits_counted .invariantMode hrun⟩

end Shortener.Stats
