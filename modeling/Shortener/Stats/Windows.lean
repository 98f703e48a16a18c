import Shortener.Stats.Convert

/-!
# The time windows

`Convert` dates a visit by the creation of the row it was merged into, which is up to
an hour older. So a window of `W` shows every visit of the last `W` minus one hour, and
no visit older than `W`.

The calls of `VisitRepository.Add` happen here one after the other, each at one
instant; `History` logs them.

* `windowInv_step`: for every cut-off, the rows created since then hold at most the visits
  since then, and at least the visits since one hour later.
* `windows_accurate`: the resulting bounds for the `Views` of the four windows.
-/

namespace Shortener.Stats

open Shortener.Common Shortener.DotNet

/-! ## Histories -/

/-- The table, the time of the last call, and the visits recorded so far. -/
structure History where
  table : Table
  clock : ℤ
  visited : List (ℤ × ℤ)

/-- No visits. -/
def History.init (clock : ℤ) : History := ⟨.empty, clock, []⟩

/-- A call of `Add` at `now`, whose `GetLastHour` takes the `i`-th row. -/
structure AddAt where
  urlId : ℤ
  country : Option String
  userAgent : Option UserAgent
  referrerHost : Option String
  now : ℤ
  i : ℕ
  deriving DecidableEq, Repr

/-- A call of `Add` runs to its end. -/
def addAt (env : Globalization) (s : History) (e : AddAt) : Option History :=
  if s.clock ≤ e.now then do
    let existing ← s.table.getLastHour e.urlId e.now e.i
    let table ← s.table.write existing
      (.ofRequest env e.urlId e.country e.userAgent e.referrerHost) e.now
    return ⟨table, e.now, s.visited ++ [(e.urlId, e.now)]⟩
  else none

/-- The number of visits of a URL since `start`. -/
def History.visitsSince (s : History) (urlId : ℤ) (start : ℤ) : ℕ :=
  s.visited.countP fun visit => visit.1 = urlId ∧ start ≤ visit.2

/-- The number of all visits of a URL. -/
def History.visits (s : History) (urlId : ℤ) : ℕ :=
  s.visited.countP fun visit => visit.1 = urlId

/-! ## Invariant -/

/-- The `Total` of a row of the URL that was created since `start`. -/
def totalSince (urlId : ℤ) (start : ℤ) (visit : Visit) : ℤ :=
  if visit.urlId = urlId ∧ start ≤ visit.createdAt then visit.total else 0

/-- The rows count the visits, each at most an hour before it came. -/
structure WindowInv (s : History) : Prop where
  keyed : s.table.WellKeyed
  created : s.table.All fun visit => visit.createdAt ≤ s.clock
  lower : ∀ urlId start,
    (s.visitsSince urlId (start + hour) : ℤ) ≤ s.table.visits.sumOf (totalSince urlId start)
  upper : ∀ urlId start,
    s.table.visits.sumOf (totalSince urlId start) ≤ s.visitsSince urlId start
  all : ∀ urlId, s.table.visits.sumOf (totalOf urlId) = s.visits urlId

theorem windowInv_init (clock : ℤ) : WindowInv (.init clock) := by
  constructor <;>
    simp [History.init, Table.empty, Table.WellKeyed, Table.All, History.visitsSince, History.visits]

/-- A call adds one to every sum over the rows that sees the row it writes. That row was
    created at `created`, at most one hour ago. -/
theorem addAt_cases {env : Globalization} {s t : History} {e : AddAt} (hi : WindowInv s)
    (h : addAt env s e = some t) :
    s.clock ≤ e.now ∧ t.clock = e.now ∧ t.visited = s.visited ++ [(e.urlId, e.now)] ∧
      t.table.WellKeyed ∧ (t.table.All fun visit => visit.createdAt ≤ e.now) ∧
      ∃ created, e.now - hour ≤ created ∧ created ≤ e.now ∧
        (∀ urlId start, t.table.visits.sumOf (totalSince urlId start) =
          s.table.visits.sumOf (totalSince urlId start) +
            flag (e.urlId = urlId ∧ start ≤ created)) ∧
        ∀ urlId, t.table.visits.sumOf (totalOf urlId) =
          s.table.visits.sumOf (totalOf urlId) + flag (e.urlId = urlId) := by
  simp only [addAt, Option.ite_none_right_eq_some, Option.bind_eq_bind, Option.bind_eq_some_iff,
    Option.pure_def, Option.some.injEq] at h
  obtain ⟨hclock, existing, hlast, table, hw, rfl⟩ := h
  have hall : table.All fun visit => visit.createdAt ≤ e.now :=
    Table.All.write (fun id visit hv => (hi.created id visit hv).trans hclock) (fun _ => le_rfl)
      (fun _ h => h) hw
  refine ⟨hclock, rfl, rfl, hi.keyed.write hw, hall, ?_⟩
  cases existing with
  | none =>
    refine ⟨e.now, ?_, le_rfl, ?_, ?_⟩
    · simp only [hour]; omega
    · intro urlId start
      rcases Table.sumOf_write hi.keyed (totalSince urlId start) hw with ⟨-, hsum⟩ | ⟨_, hv, -⟩
      · exact hsum
      · cases hv
    · intro urlId
      rcases Table.sumOf_write hi.keyed (totalOf urlId) hw with ⟨-, hsum⟩ | ⟨_, hv, -⟩
      · exact hsum
      · cases hv
  | some visit =>
    obtain ⟨hmem, hcreated⟩ := Table.getLastHour_some hlast
    obtain ⟨⟨id, hid⟩, hurl⟩ := Table.mem_ofUrl.mp hmem
    have hlookup : s.table.visits.lookup visit.id = some visit := by
      rw [(hi.keyed id visit hid).1, hid]
    refine ⟨visit.createdAt, hcreated, (hi.created id visit hid).trans hclock,
      ?_, ?_⟩
    · intro urlId start
      rcases Table.sumOf_write hi.keyed (totalSince urlId start) hw with ⟨hv, -⟩ | ⟨_, hv, hsum⟩
      · cases hv
      · cases hv
        rw [hsum visit hlookup, ← hurl]
        simp only [totalSince, flag, Visit.update]
        split_ifs <;> omega
    · intro urlId
      rcases Table.sumOf_write hi.keyed (totalOf urlId) hw with ⟨hv, -⟩ | ⟨_, hv, hsum⟩
      · cases hv
      · cases hv
        rw [hsum visit hlookup, ← hurl]
        simp only [totalOf, flag, Visit.update]
        split_ifs <;> omega

theorem windowInv_step {env : Globalization} {s t : History} {e : AddAt} (hi : WindowInv s)
    (h : addAt env s e = some t) : WindowInv t := by
  obtain ⟨-, hclock, hvisited, hkeyed, hall, created, hle, hge, hsince, hof⟩ := addAt_cases hi h
  have hcount : ∀ urlId start, (t.visitsSince urlId start : ℤ) =
      s.visitsSince urlId start + flag (e.urlId = urlId ∧ start ≤ e.now) := by
    intro urlId start
    simp only [History.visitsSince, hvisited, List.countP_append, List.countP_singleton, flag,
      decide_eq_true_eq]
    split_ifs <;> simp
  refine ⟨hkeyed, hclock ▸ hall, ?_, ?_, ?_⟩
  · intro urlId start
    -- a visit counted since `start + hour` lies in a row created since `start`
    have := hi.lower urlId start
    rw [hcount, hsince]
    simp only [flag]
    split_ifs <;> omega
  · intro urlId start
    have := hi.upper urlId start
    rw [hcount, hsince]
    simp only [flag]
    split_ifs <;> omega
  · intro urlId
    rw [hof, hi.all]
    simp only [History.visits, hvisited, List.countP_append, List.countP_singleton, flag,
      decide_eq_true_eq]
    split_ifs <;> simp

/-! ## Main theorem -/

theorem History.visitsSince_le_visits (s : History) (urlId start : ℤ) :
    s.visitsSince urlId start ≤ s.visits urlId :=
  List.countP_mono_left fun _ _ h => by
    simp only [decide_eq_true_eq] at h ⊢
    exact h.1

/-- The rows in a window are the rows created since its start. -/
theorem sum_isWithin {table : Table} {urlId : ℤ} {rows : List Visit}
    (hrows : rows.Perm (table.ofUrl urlId)) (window now : ℤ) :
    ((rows.filter (·.IsWithin window now)).map Visit.total).sum =
      table.visits.sumOf (totalSince urlId (now - window)) := by
  rw [((hrows.filter _).map _).sum_eq]
  have hfilter : ∀ l : List Visit, ((l.filter (·.IsWithin window now)).map Visit.total).sum =
      (l.map fun visit => if now - window ≤ visit.createdAt then visit.total else 0).sum := by
    intro l
    induction l with
    | nil => rfl
    | cons visit l ih =>
      have hiff : visit.IsWithin window now ↔ now - window ≤ visit.createdAt := by
        unfold Visit.IsWithin
        omega
      by_cases h : now - window ≤ visit.createdAt
      · rw [List.filter_cons_of_pos (by simpa using hiff.mpr h), List.map_cons, List.sum_cons, ih,
          List.map_cons, List.sum_cons, if_pos h]
      · rw [List.filter_cons_of_neg (by simpa using mt hiff.mp h), ih, List.map_cons,
          List.sum_cons, if_neg h, zero_add]
  rw [hfilter, Table.sum_ofUrl]
  refine congrArg (fun f => table.visits.sumOf f) (funext fun visit => ?_)
  simp only [totalSince]
  split_ifs <;> simp_all

/-- **The windows are accurate up to one hour.** -/
theorem windows_accurate (env : Globalization) {start : ℤ} {es : List AddAt} {s : History}
    (h : Run (addAt env) always (.init start) es s) {shardId now : ℤ} {url : Url}
    (hrows : url.visits.Perm (s.table.ofUrl url.id))
    (hsmall : s.visits url.id < 2 ^ 31) {stats : UrlStats}
    (hconvert : convert env shardId now url = .ret stats) :
    (∀ window views, (window, views) ∈
        [(days 1, stats.lastDay.views), (days 7, stats.lastWeek.views),
          (days 30, stats.lastMonth.views)] →
      s.visitsSince url.id (now - (window - hour)) ≤ views ∧
        views ≤ s.visitsSince url.id (now - window)) ∧
      stats.allTime.views = s.visits url.id := by
  have hinv : WindowInv s := h.invariant (windowInv_init start)
    fun s e t hi _ hs => windowInv_step hi hs
  obtain ⟨-, -, -, hday, hweek, hmonth, hall⟩ := convert_eq_ret_iff.mp hconvert
  have hwindow : ∀ window stats',
      addVisits env (url.visits.filter (·.IsWithin window now)) = .ret stats' →
      s.visitsSince url.id (now - (window - hour)) ≤ stats'.views ∧
        stats'.views ≤ s.visitsSince url.id (now - window) := by
    intro window stats' hstats
    have hlower := hinv.lower url.id (now - window)
    have hupper := hinv.upper url.id (now - window)
    have hle := s.visitsSince_le_visits url.id (now - window)
    rw [show now - window + hour = now - (window - hour) by ring] at hlower
    rw [views_addVisits hstats, sum_isWithin hrows, toInt32_of_isInt32 ⟨by omega, by omega⟩]
    exact ⟨hlower, hupper⟩
  constructor
  · intro window views hmem
    simp only [List.mem_cons, Prod.mk.injEq, List.not_mem_nil, or_false] at hmem
    rcases hmem with ⟨rfl, rfl⟩ | ⟨rfl, rfl⟩ | ⟨rfl, rfl⟩
    · exact hwindow _ _ hday
    · exact hwindow _ _ hweek
    · exact hwindow _ _ hmonth
  · have hsum : (url.visits.map Visit.total).sum = s.visits url.id := by
      rw [(hrows.map _).sum_eq, Table.sum_ofUrl]
      exact hinv.all url.id
    rw [views_addVisits hall, hsum, toInt32_of_isInt32 ⟨by omega, by omega⟩]

/-- Three visits of URL 5; the second one is merged into the row of the first. -/
def threeVisits : List AddAt :=
  [⟨5, some "DE", none, none, 0, 0⟩, ⟨5, some "DE", none, none, 59 * 60 * 10 ^ 9, 0⟩,
    ⟨5, some "FR", none, none, 2 * hour, 0⟩]

/-- The state after the three visits. -/
def threeVisitsHistory : History :=
  (threeVisits.foldlM (addAt .invariantMode) (.init 0)).getD (.init 0)

/-- A day and half an hour after the first visit. -/
theorem windows_accurate_threeVisits :
    ∃ stats, convert .invariantMode 0 (days 1 + hour / 2)
        ⟨5, "https://example.com", 1, 3, threeVisitsHistory.table.ofUrl 5, 0⟩ = .ret stats ∧
      threeVisitsHistory.visitsSince 5 (hour / 2 + hour) ≤ stats.lastDay.views ∧
      stats.lastDay.views ≤ threeVisitsHistory.visitsSince 5 (hour / 2) ∧
      stats.allTime.views = 3 := by
  have hrun : Run (addAt .invariantMode) always (.init 0) threeVisits threeVisitsHistory :=
    run_iff_foldlM.mpr rfl
  have hreturns : (convert .invariantMode 0 (days 1 + hour / 2)
      ⟨5, "https://example.com", 1, 3, threeVisitsHistory.table.ofUrl 5, 0⟩).Returns := by
    decide +kernel
  obtain ⟨stats, hstats⟩ := hreturns
  obtain ⟨hwindows, hall⟩ := windows_accurate .invariantMode hrun (List.Perm.refl _)
    (by decide +kernel) hstats
  obtain ⟨hlower, hupper⟩ := hwindows (days 1) stats.lastDay.views (by simp)
  refine ⟨stats, hstats, ?_, ?_, ?_⟩
  · rwa [show days 1 + hour / 2 - (days 1 - hour) = hour / 2 + hour by ring] at hlower
  · rwa [show days 1 + hour / 2 - days 1 = hour / 2 by ring] at hupper
  · rw [hall]
    decide +kernel

end Shortener.Stats
