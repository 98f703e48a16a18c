import Shortener.Common.Run
import Shortener.DotNet.Dictionary
import Shortener.DotNet.Text
import Shortener.Stats.UserAgent

/-!
# The visit writer

`VisitRepository.Add` of `Shortener.GrpcBackend/Repositories/VisitRepository.cs`, with
`GetLastHour`, `Insert` and `Update`, over a table `Visit` that is keyed by `Id`. A row
collects the visits of one URL for up to an hour. The five JSONB columns are objects
of counters.

`step` lets any number of calls, from any number of replicas, interleave: a call is
the `GetLastHour` query and later one `INSERT` or one `UPDATE`.
-/

namespace Shortener.Stats

open Shortener.Common Shortener.DotNet

/-! ## Rows -/

/-- One hour. An `Instant` is a number of nanoseconds. -/
def hour : ℤ := 3600 * 10 ^ 9

/-- `Shortener.GrpcBackend/Data/Visit.cs`. -/
structure Visit where
  id : ℤ
  total : ℤ
  browserType : ℤ
  robotType : ℤ
  unknownType : ℤ
  platforms : Dictionary String ℤ
  windows : ℤ
  linux : ℤ
  ios : ℤ
  macOs : ℤ
  android : ℤ
  otherPlatform : ℤ
  browsers : Dictionary String ℤ
  chrome : ℤ
  edge : ℤ
  firefox : ℤ
  internetExplorer : ℤ
  opera : ℤ
  safari : ℤ
  otherBrowser : ℤ
  mobileDeviceTypes : Dictionary String ℤ
  countries : Dictionary String ℤ
  referrers : Dictionary String ℤ
  urlId : ℤ
  createdAt : ℤ

/-- The arguments of `Insert` and `Update`. -/
structure AddArgs where
  urlId : ℤ
  country : String
  userAgent : Option UserAgent
  referrerHost : Option String
  deriving DecidableEq, Repr

/-- How `Add` normalizes its arguments (lines 24–29). -/
def AddArgs.ofRequest (env : Globalization) (urlId : ℤ) (country : Option String)
    (userAgent : Option UserAgent) (referrerHost : Option String) : AddArgs where
  urlId := urlId
  country :=
    match country with
    | none => "unknown"
    | some country => if country = "" then "unknown" else env.toLowerInvariant country
  userAgent := userAgent
  referrerHost := referrerHost.map fun host => if host = "" then host else env.toLowerInvariant host

/-! ## `Insert` and `Update` -/

/-- A counter that the visit increments if `b` holds. -/
def flag (b : Prop) [Decidable b] : ℤ := if b then 1 else 0

/-- The type under which both statements count the visit. -/
def AddArgs.type (args : AddArgs) : UserAgentType :=
  match args.userAgent with
  | some userAgent => userAgent.type
  | none => .unknown

/-- The platform of the visitor. -/
def AddArgs.platform (args : AddArgs) : Option Platform :=
  args.userAgent.bind UserAgent.platform

/-- The browser of the visitor. -/
def AddArgs.browser (args : AddArgs) : Option Browser :=
  args.userAgent.bind UserAgent.browser

/-- The device of the visitor. -/
def AddArgs.mobileDeviceType (args : AddArgs) : Option String :=
  args.userAgent.bind UserAgent.mobileDeviceType

/-- The visitor has a platform of this type. -/
def AddArgs.hasPlatform (args : AddArgs) (type : PlatformType) : Prop :=
  args.platform.map Platform.type = some type

/-- The visitor has a browser of this type. -/
def AddArgs.hasBrowser (args : AddArgs) (type : BrowserType) : Prop :=
  args.browser.map Browser.type = some type

instance (args : AddArgs) (type : PlatformType) : Decidable (args.hasPlatform type) :=
  inferInstanceAs (Decidable (_ = _))

instance (args : AddArgs) (type : BrowserType) : Decidable (args.hasBrowser type) :=
  inferInstanceAs (Decidable (_ = _))

/-- The key under which a browser is counted. -/
def Browser.browserVersion (browser : Browser) : String :=
  browser.name ++ "-" ++ browser.version.getD "unknown"

/-- The new object of a JSONB column, with a counter for `key` if there is one. -/
def counter (key : Option String) : Dictionary String ℤ :=
  key.elim ∅ fun key => AList.singleton key 1

/-- A JSONB column after counting `key`, if there is one. -/
def count (column : Dictionary String ℤ) (key : Option String) : Dictionary String ℤ :=
  key.elim column column.increment

theorem lookup_counter (key : Option String) (name : String) :
    (counter key).lookup name = if key = some name then some 1 else none := by
  cases key with
  | none => rfl
  | some key =>
    show (AList.singleton key 1).lookup name = _
    by_cases h : key = name
    · rw [h, if_pos rfl]
      exact List.dlookup_cons_eq _ _ _
    · rw [if_neg (mt Option.some.inj h)]
      exact List.dlookup_cons_ne _ _ (Ne.symm h)

theorem lookup_count (column : Dictionary String ℤ) (key : Option String) (name : String) :
    (count column key).lookup name =
      if key = some name then some ((column.lookup name).getD 0 + 1) else column.lookup name := by
  cases key with
  | none => rfl
  | some key =>
    show (column.insert key _).lookup name = _
    by_cases h : key = name
    · rw [h, if_pos rfl, AList.lookup_insert]
    · rw [if_neg (mt Option.some.inj h), AList.lookup_insert_ne (Ne.symm h)]

/-- The row of `Insert` (lines 63–209). Unlike `Update`, it does not name the platform
    of an Android or iOS visit. -/
def Visit.insert (id : ℤ) (args : AddArgs) (now : ℤ) : Visit where
  id := id
  total := 1
  browserType := flag (args.type = .browser)
  robotType := flag (args.type = .robot)
  unknownType := flag (args.type = .unknown)
  platforms := counter ((args.platform.filter fun platform =>
    platform.type ≠ .android ∧ platform.type ≠ .ios).map Platform.name)
  windows := flag (args.hasPlatform .windows)
  linux := flag (args.hasPlatform .linux)
  ios := flag (args.hasPlatform .ios)
  macOs := flag (args.hasPlatform .macOs)
  android := flag (args.hasPlatform .android)
  otherPlatform := flag (args.hasPlatform .other)
  browsers := counter (args.browser.map Browser.browserVersion)
  chrome := flag (args.hasBrowser .chrome)
  edge := flag (args.hasBrowser .edge)
  firefox := flag (args.hasBrowser .firefox)
  internetExplorer := flag (args.hasBrowser .internetExplorer)
  opera := flag (args.hasBrowser .opera)
  safari := flag (args.hasBrowser .safari)
  otherBrowser := flag (args.hasBrowser .other)
  mobileDeviceTypes := counter args.mobileDeviceType
  countries := counter (some args.country)
  referrers := counter args.referrerHost
  urlId := args.urlId
  createdAt := now

/-- The row `visit` after the statement of `Update` (lines 211–373). -/
def Visit.update (visit : Visit) (args : AddArgs) : Visit :=
  { visit with
    total := visit.total + 1
    browserType := visit.browserType + flag (args.type = .browser)
    robotType := visit.robotType + flag (args.type = .robot)
    unknownType := visit.unknownType + flag (args.type = .unknown)
    platforms := count visit.platforms (args.platform.map Platform.name)
    windows := visit.windows + flag (args.hasPlatform .windows)
    linux := visit.linux + flag (args.hasPlatform .linux)
    ios := visit.ios + flag (args.hasPlatform .ios)
    macOs := visit.macOs + flag (args.hasPlatform .macOs)
    android := visit.android + flag (args.hasPlatform .android)
    otherPlatform := visit.otherPlatform + flag (args.hasPlatform .other)
    browsers := count visit.browsers (args.browser.map Browser.browserVersion)
    chrome := visit.chrome + flag (args.hasBrowser .chrome)
    edge := visit.edge + flag (args.hasBrowser .edge)
    firefox := visit.firefox + flag (args.hasBrowser .firefox)
    internetExplorer := visit.internetExplorer + flag (args.hasBrowser .internetExplorer)
    opera := visit.opera + flag (args.hasBrowser .opera)
    safari := visit.safari + flag (args.hasBrowser .safari)
    otherBrowser := visit.otherBrowser + flag (args.hasBrowser .other)
    mobileDeviceTypes := count visit.mobileDeviceTypes args.mobileDeviceType
    countries := count visit.countries (some args.country)
    referrers := count visit.referrers args.referrerHost }

/-! ## The table -/

/-- Table `Visit`, keyed by its primary key, and the sequence behind it. -/
structure Table where
  visits : Dictionary ℤ Visit
  sequence : ℕ

/-- No rows. -/
def Table.empty : Table := ⟨∅, 0⟩

/-- The rows of a URL. -/
def Table.ofUrl (table : Table) (urlId : ℤ) : List Visit :=
  (table.visits.entries.map Sigma.snd).filter fun visit => visit.urlId = urlId

/-- The rows `GetLastHour` can return (lines 51–61); it takes any one of them. -/
def Table.lastHour (table : Table) (urlId : ℤ) (now : ℤ) : List Visit :=
  (table.ofUrl urlId).filter fun visit => now - hour ≤ visit.createdAt

/-- What `GetLastHour` returns if it takes the `i`-th of these rows. -/
def Table.getLastHour (table : Table) (urlId : ℤ) (now : ℤ) (i : ℕ) :
    Option (Option Visit) :=
  match table.lastHour urlId now with
  | [] => some none
  | visit :: visits => ((visit :: visits)[i]?).map some

/-- The `INSERT`. A `SERIAL` column ends at the largest `INT`. -/
def Table.insert (table : Table) (args : AddArgs) (now : ℤ) : Option Table :=
  if table.sequence + 1 < 2 ^ 31 then
    some ⟨table.visits.insert (table.sequence + 1) (.insert (table.sequence + 1) args now),
      table.sequence + 1⟩
  else none

/-- The `UPDATE`, which fails if a counter leaves the range of `INT`. No counter of a row
    is above its `Total`. -/
def Table.update (table : Table) (id : ℤ) (args : AddArgs) : Option Table :=
  match table.visits.lookup id with
  | some visit =>
    if visit.total + 1 < 2 ^ 31 then
      some { table with visits := table.visits.insert id (visit.update args) }
    else none
  | none => some table

/-- The second half of `Add`. -/
def Table.write (table : Table) (existing : Option Visit) (args : AddArgs) (now : ℤ) :
    Option Table :=
  match existing with
  | none => table.insert args now
  | some visit => table.update visit.id args

/-- Every row satisfies `P`. -/
def Table.All (table : Table) (P : Visit → Prop) : Prop :=
  ∀ id visit, table.visits.lookup id = some visit → P visit

/-- Every row is stored under its id, and the sequence has given out all ids. -/
def Table.WellKeyed (table : Table) : Prop :=
  ∀ id visit, table.visits.lookup id = some visit → visit.id = id ∧ id ≤ table.sequence

theorem Table.mem_ofUrl {table : Table} {urlId : ℤ} {visit : Visit} :
    visit ∈ table.ofUrl urlId ↔
      (∃ id, table.visits.lookup id = some visit) ∧ visit.urlId = urlId := by
  simp only [Table.ofUrl, List.mem_filter, List.mem_map, decide_eq_true_eq]
  refine and_congr_left fun _ => ⟨?_, ?_⟩
  · rintro ⟨⟨id, v⟩, hmem, rfl⟩
    exact ⟨id, AList.mem_lookup_iff.mpr hmem⟩
  · rintro ⟨id, h⟩
    exact ⟨⟨id, visit⟩, AList.mem_lookup_iff.mp h, rfl⟩

/-- A sum over the rows of a URL is a sum over the table. -/
theorem Table.sum_ofUrl (table : Table) (urlId : ℤ) (f : Visit → ℤ) :
    ((table.ofUrl urlId).map f).sum =
      table.visits.sumOf fun visit => if visit.urlId = urlId then f visit else 0 := by
  rw [Table.ofUrl, Dictionary.sumOf]
  induction table.visits.entries with
  | nil => rfl
  | cons entry entries ih =>
    rw [List.map_cons, List.filter_cons]
    split_ifs with h
    · simp [ih, of_decide_eq_true h]
    · simpa [ih] using fun hurl => absurd (decide_eq_true hurl) h

/-- The `Total` of a row of the URL. -/
def totalOf (urlId : ℤ) (visit : Visit) : ℤ := if visit.urlId = urlId then visit.total else 0

/-- The row `GetLastHour` returns is a row of the URL, at most one hour old. -/
theorem Table.getLastHour_some {table : Table} {urlId : ℤ} {now : ℤ} {i : ℕ} {visit : Visit}
    (h : table.getLastHour urlId now i = some (some visit)) :
    visit ∈ table.ofUrl urlId ∧ now - hour ≤ visit.createdAt := by
  have hmem : visit ∈ table.lastHour urlId now := by
    unfold Table.getLastHour at h
    split at h
    · cases h
    · rename_i hrows
      simp only [Option.map_eq_some_iff, Option.some.injEq, exists_eq_right] at h
      exact hrows ▸ List.mem_of_getElem? h
  simpa [Table.lastHour] using hmem

theorem Table.insert_eq_some {table table' : Table} {args : AddArgs} {now : ℤ}
    (h : table.insert args now = some table') :
    table'.sequence = table.sequence + 1 ∧
      table'.visits = table.visits.insert ((table.sequence : ℤ) + 1)
        (Visit.insert (table.sequence + 1) args now) := by
  simp only [Table.insert, Option.ite_none_right_eq_some, Option.some.injEq] at h
  obtain ⟨-, rfl⟩ := h
  exact ⟨rfl, rfl⟩

theorem Table.update_eq_some {table table' : Table} {id : ℤ} {args : AddArgs} {visit : Visit}
    (hv : table.visits.lookup id = some visit) (h : table.update id args = some table') :
    table'.sequence = table.sequence ∧
      table'.visits = table.visits.insert id (visit.update args) := by
  simp only [Table.update, hv, Option.ite_none_right_eq_some, Option.some.injEq] at h
  obtain ⟨-, rfl⟩ := h
  exact ⟨rfl, rfl⟩

theorem Table.WellKeyed.lookup_new {table : Table} (h : table.WellKeyed) :
    table.visits.lookup ((table.sequence : ℤ) + 1) = none := by
  cases hv : table.visits.lookup ((table.sequence : ℤ) + 1) with
  | none => rfl
  | some visit =>
    have := (h _ _ hv).2
    omega

/-- The rows after a write: the old ones and one that was inserted or updated. -/
theorem Table.lookup_write {table table' : Table} {existing : Option Visit} {args : AddArgs}
    {now : ℤ} (h : table.write existing args now = some table') {id : ℤ} {visit : Visit}
    (hv : table'.visits.lookup id = some visit) :
    table.visits.lookup id = some visit ∨
    (existing = none ∧ id = table.sequence + 1 ∧ visit = Visit.insert id args now ∧
      table'.sequence = table.sequence + 1) ∨
    ∃ old, table.visits.lookup id = some old ∧ visit = old.update args ∧
      existing.map Visit.id = some id := by
  cases existing with
  | none =>
    obtain ⟨hseq, hrows⟩ := Table.insert_eq_some h
    rw [hrows] at hv
    by_cases hid : id = table.sequence + 1
    · subst hid
      rw [AList.lookup_insert, Option.some.injEq] at hv
      exact .inr (.inl ⟨rfl, rfl, hv.symm, hseq⟩)
    · rw [AList.lookup_insert_ne hid] at hv
      exact .inl hv
  | some existing =>
    cases hold : table.visits.lookup existing.id with
    | none =>
      simp only [Table.write, Table.update, hold, Option.some.injEq] at h
      exact .inl (h ▸ hv)
    | some old =>
      obtain ⟨-, hrows⟩ := Table.update_eq_some hold h
      rw [hrows] at hv
      by_cases hid : id = existing.id
      · subst hid
        rw [AList.lookup_insert, Option.some.injEq] at hv
        exact .inr (.inr ⟨old, hold, hv.symm, rfl⟩)
      · rw [AList.lookup_insert_ne hid] at hv
        exact .inl hv

theorem Table.sequence_write {table table' : Table} {existing : Option Visit} {args : AddArgs}
    {now : ℤ} (h : table.write existing args now = some table') :
    table.sequence ≤ table'.sequence := by
  cases existing with
  | none => rw [(Table.insert_eq_some h).1]; omega
  | some existing =>
    cases hold : table.visits.lookup existing.id with
    | none =>
      simp only [Table.write, Table.update, hold, Option.some.injEq] at h
      rw [h]
    | some old => rw [(Table.update_eq_some hold h).1]

theorem Table.WellKeyed.write {table table' : Table} (hk : table.WellKeyed)
    {existing : Option Visit} {args : AddArgs} {now : ℤ}
    (h : table.write existing args now = some table') : table'.WellKeyed := by
  intro id visit hv
  have hseq := Table.sequence_write h
  rcases Table.lookup_write h hv with hold | ⟨-, rfl, rfl, hnew⟩ | ⟨old, hold, rfl, -⟩
  · have := hk id visit hold
    omega
  · exact ⟨rfl, by omega⟩
  · have := hk id old hold
    exact ⟨this.1, by omega⟩

/-- What `Insert` establishes and `Update` preserves holds in every row. -/
theorem Table.All.write {P : Visit → Prop} {table table' : Table} (hP : table.All P)
    {existing : Option Visit} {args : AddArgs} {now : ℤ}
    (hinsert : ∀ id, P (Visit.insert id args now)) (hupdate : ∀ visit, P visit → P (visit.update args))
    (h : table.write existing args now = some table') : table'.All P := by
  intro id visit hv
  rcases Table.lookup_write h hv with hold | ⟨-, -, rfl, -⟩ | ⟨old, hold, rfl, -⟩
  · exact hP id visit hold
  · exact hinsert id
  · exact hupdate old (hP id old hold)

/-- A write that hits its row adds, to any sum over the table, what it adds to the row. -/
theorem Table.sumOf_write {table table' : Table} (hk : table.WellKeyed) (f : Visit → ℤ)
    {existing : Option Visit} {args : AddArgs} {now : ℤ}
    (h : table.write existing args now = some table') :
    (existing = none ∧ table'.visits.sumOf f =
      table.visits.sumOf f + f (Visit.insert (table.sequence + 1) args now)) ∨
    (∃ visit, existing = some visit ∧ ∀ old, table.visits.lookup visit.id = some old →
      table'.visits.sumOf f = table.visits.sumOf f + (f (old.update args) - f old)) := by
  cases existing with
  | none =>
    refine .inl ⟨rfl, ?_⟩
    rw [(Table.insert_eq_some h).2, Dictionary.sumOf_insert_new f hk.lookup_new]
  | some visit =>
    refine .inr ⟨visit, rfl, ?_⟩
    intro old hold
    rw [(Table.update_eq_some hold h).2, Dictionary.sumOf_insert_old f hold]

/-! ## Steps -/

/-- A call of `Add` after its query. -/
structure Call where
  args : AddArgs
  existing : Option Visit

/-- The database, the calls in progress, and the URLs of the calls that have returned. -/
structure State where
  table : Table
  calls : ℕ → Option Call
  completed : List ℤ

/-- No rows, and no calls. -/
def State.init : State := ⟨.empty, fun _ => none, []⟩

/-- What can happen next. -/
inductive Event
  /-- Call `n` starts and runs `GetLastHour`. -/
  | read (n : ℕ) (urlId : ℤ) (country : Option String) (userAgent : Option UserAgent)
      (referrerHost : Option String) (now : ℤ) (i : ℕ)
  /-- Call `n` runs its `INSERT` or `UPDATE` and returns. -/
  | write (n : ℕ) (now : ℤ)
  /-- Call `n` ends with an exception. -/
  | fail (n : ℕ)
  deriving DecidableEq, Repr

/-- A step of a call of `Add`. -/
def step (env : Globalization) (s : State) : Event → Option State
  | .read n urlId country userAgent referrerHost now i =>
    if s.calls n = none then
      let args := AddArgs.ofRequest env urlId country userAgent referrerHost
      (s.table.getLastHour urlId now i).map fun existing =>
        { s with calls := Function.update s.calls n (some ⟨args, existing⟩) }
    else none
  | .write n now =>
    (s.calls n).bind fun call =>
      (s.table.write call.existing call.args now).map fun table =>
        { table := table
          calls := Function.update s.calls n none
          completed := s.completed ++ [call.args.urlId] }
  | .fail n =>
    (s.calls n).map fun _ => { s with calls := Function.update s.calls n none }

theorem step_cases {env : Globalization} {s t : State} {e : Event} (h : step env s e = some t) :
    (∃ n urlId country userAgent referrerHost now i existing,
      e = .read n urlId country userAgent referrerHost now i ∧
      s.table.getLastHour urlId now i = some existing ∧
      t = { s with
        calls := Function.update s.calls n
          (some ⟨.ofRequest env urlId country userAgent referrerHost, existing⟩) }) ∨
    (∃ n now call table, e = .write n now ∧ s.calls n = some call ∧
      s.table.write call.existing call.args now = some table ∧
      t = {
        table := table
        calls := Function.update s.calls n none
        completed := s.completed ++ [call.args.urlId] }) ∨
    ∃ n, e = .fail n ∧ t = { s with calls := Function.update s.calls n none } := by
  cases e with
  | read n urlId country userAgent referrerHost now i =>
    simp only [step, Option.ite_none_right_eq_some, Option.map_eq_some_iff] at h
    obtain ⟨-, existing, hlast, rfl⟩ := h
    exact .inl ⟨n, urlId, country, userAgent, referrerHost, now, i, existing, rfl, hlast, rfl⟩
  | write n now =>
    simp only [step, Option.bind_eq_some_iff, Option.map_eq_some_iff] at h
    obtain ⟨call, hcall, table, hwrite, rfl⟩ := h
    exact .inr (.inl ⟨n, now, call, table, rfl, hcall, hwrite, rfl⟩)
  | fail n =>
    simp only [step, Option.map_eq_some_iff] at h
    obtain ⟨_, -, rfl⟩ := h
    exact .inr (.inr ⟨n, rfl, rfl⟩)

end Shortener.Stats
