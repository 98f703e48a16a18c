import Shortener.Stats.Repository

/-!
# The order of the visits in a row

The first visit of a row goes through `Insert`, the others through `Update`. Both count the
same, but for one thing: `Insert` does not count the name of an Android or iOS platform
(`Shortener.GrpcBackend/Repositories/VisitRepository.cs`, line 127), and `Update` does.

* `recordVisits_eq`: the row, without the table around it.
* `lookup_platforms`: `Platforms` counts all names but the one that `Insert` has skipped.
* `recorded_alike_iff`: when the order of the visits does not show in the row.
-/

namespace Shortener.Stats

open Shortener.DotNet

/-- The row of a sequence of visits that fall into one row: the first one inserts it, the
    others update it. -/
def recordVisits (table : Table) (now : ℤ) (first : AddArgs) (rest : List AddArgs) : Option Visit := do
  let id : ℤ := table.sequence + 1
  let inserted ← table.insert first now
  let updated ← rest.foldlM (fun table args => table.update id args) inserted
  updated.visits.lookup id

/-- The rows agree, but for `Id` and the timestamps. -/
structure Visit.SameCounters (visit visit' : Visit) : Prop where
  total : visit.total = visit'.total
  browserType : visit.browserType = visit'.browserType
  robotType : visit.robotType = visit'.robotType
  unknownType : visit.unknownType = visit'.unknownType
  platforms : ∀ name, visit.platforms.lookup name = visit'.platforms.lookup name
  windows : visit.windows = visit'.windows
  linux : visit.linux = visit'.linux
  ios : visit.ios = visit'.ios
  macOs : visit.macOs = visit'.macOs
  android : visit.android = visit'.android
  otherPlatform : visit.otherPlatform = visit'.otherPlatform
  browsers : ∀ name, visit.browsers.lookup name = visit'.browsers.lookup name
  chrome : visit.chrome = visit'.chrome
  edge : visit.edge = visit'.edge
  firefox : visit.firefox = visit'.firefox
  internetExplorer : visit.internetExplorer = visit'.internetExplorer
  opera : visit.opera = visit'.opera
  safari : visit.safari = visit'.safari
  otherBrowser : visit.otherBrowser = visit'.otherBrowser
  mobileDeviceTypes :
    ∀ name, visit.mobileDeviceTypes.lookup name = visit'.mobileDeviceTypes.lookup name
  countries : ∀ name, visit.countries.lookup name = visit'.countries.lookup name
  referrers : ∀ name, visit.referrers.lookup name = visit'.referrers.lookup name
  urlId : visit.urlId = visit'.urlId

/-- The platform name that `Insert` does not count. -/
def AddArgs.skipped (args : AddArgs) : Option String :=
  (args.platform.filter fun platform => platform.type = .android ∨ platform.type = .ios).map Platform.name

/-- No visit is by an Android or iOS platform, or all are, by platforms of one name. -/
def SkippedAlike (visits : List AddArgs) : Prop :=
  ∀ args ∈ visits, ∀ args' ∈ visits, args.skipped = args'.skipped

instance (visits : List AddArgs) : Decidable (SkippedAlike visits) :=
  inferInstanceAs (Decidable (∀ args ∈ visits, ∀ args' ∈ visits, args.skipped = args'.skipped))

/-! ## The row -/

/-- The row after `first` and `rest`. -/
def Visit.recorded (id : ℤ) (now : ℤ) (first : AddArgs) (rest : List AddArgs) : Visit :=
  rest.foldl Visit.update (Visit.insert id first now)

/-- The statements reach the row, as long as its `Total` is an `INT`. -/
theorem foldlM_update {table : Table} {id : ℤ} {visit : Visit}
    (hvisit : table.visits.lookup id = some visit) (hsmall : visit.total < 2 ^ 31)
    (rest : List AddArgs) :
    ((rest.foldlM (fun (table : Table) args => table.update id args) table).bind fun table =>
        table.visits.lookup id) =
      if visit.total + rest.length < 2 ^ 31 then some (rest.foldl Visit.update visit) else none := by
  induction rest generalizing table visit with
  | nil =>
    rw [List.length_nil, Nat.cast_zero, add_zero, if_pos hsmall]
    exact hvisit
  | cons args rest ih =>
    rw [List.foldlM_cons, List.foldl_cons, List.length_cons, Nat.cast_succ]
    by_cases hnext : visit.total + 1 < 2 ^ 31
    · have hstep : table.update id args =
          some { table with visits := table.visits.insert id (visit.update args) } := by
        rw [Table.update, hvisit]
        exact if_pos hnext
      rw [hstep]
      have hlookup : ({ table with visits := table.visits.insert id (visit.update args) } :
          Table).visits.lookup id = some (visit.update args) := AList.lookup_insert _
      have hrest := ih hlookup hnext
      rw [show (visit.update args).total = visit.total + 1 from rfl] at hrest
      rw [show visit.total + ((rest.length : ℤ) + 1) = visit.total + 1 + rest.length by ring]
      exact hrest
    · have hstep : table.update id args = none := by
        rw [Table.update, hvisit]
        exact if_neg hnext
      rw [hstep, if_neg (by omega)]
      rfl

/-- The statements go through if neither the sequence nor `Total` leaves the range of `INT`. -/
theorem recordVisits_eq (table : Table) (now : ℤ) (first : AddArgs) (rest : List AddArgs) :
    recordVisits table now first rest =
      if table.sequence + 1 < 2 ^ 31 ∧ 1 + (rest.length : ℤ) < 2 ^ 31 then
        some (.recorded (table.sequence + 1) now first rest)
      else none := by
  unfold recordVisits
  by_cases hsequence : table.sequence + 1 < 2 ^ 31
  · obtain ⟨inserted, hinsert⟩ : ∃ inserted, table.insert first now = some inserted :=
      ⟨_, if_pos hsequence⟩
    have hlookup : inserted.visits.lookup ((table.sequence : ℤ) + 1) =
        some (Visit.insert (table.sequence + 1) first now) := by
      rw [(Table.insert_eq_some hinsert).2, AList.lookup_insert]
    have hrest := foldlM_update hlookup (by show (1 : ℤ) < 2 ^ 31; norm_num) rest
    rw [hinsert]
    simp only [hsequence, true_and]
    exact hrest
  · have hinsert : table.insert first now = none := if_neg hsequence
    rw [hinsert, if_neg fun h => hsequence h.1]
    rfl

/-! ## Columns of the row -/

/-- What both statements add to a column adds up. -/
theorem column_recorded (column : Visit → ℤ) (value : AddArgs → ℤ)
    (hinsert : ∀ id now args, column (Visit.insert id args now) = value args)
    (hupdate : ∀ visit args, column (visit.update args) = column visit + value args)
    (id now : ℤ) (first : AddArgs) (rest : List AddArgs) :
    column (.recorded id now first rest) = ((first :: rest).map value).sum := by
  have hrest : ∀ visit, column (rest.foldl Visit.update visit) = column visit + (rest.map value).sum := by
    induction rest with
    | nil => simp
    | cons args rest ih =>
      intro visit
      rw [List.foldl_cons, ih, hupdate, List.map_cons, List.sum_cons, add_assoc]
  rw [Visit.recorded, hrest, hinsert, List.map_cons, List.sum_cons]

theorem urlId_recorded (id now : ℤ) (first : AddArgs) (rest : List AddArgs) :
    (Visit.recorded id now first rest).urlId = first.urlId := by
  have hrest : ∀ visit, (rest.foldl Visit.update visit).urlId = visit.urlId := by
    induction rest with
    | nil => intro visit; rfl
    | cons args rest ih => intro visit; exact ih (visit.update args)
  exact hrest _

/-- The counter of a name that was counted `n` times. -/
def tally (n : ℕ) : Option ℤ := if n = 0 then none else some n

theorem lookup_foldl_count (column : Dictionary String ℤ) (keys : List (Option String)) (name : String)
    {n : ℕ} (h : column.lookup name = tally n) :
    (keys.foldl count column).lookup name = tally (n + keys.count (some name)) := by
  induction keys generalizing column n with
  | nil => exact h
  | cons key keys ih =>
    have hstep : (count column key).lookup name = tally (n + if key = some name then 1 else 0) := by
      rw [lookup_count, h]
      split_ifs
      · unfold tally
        by_cases hn : n = 0 <;> simp [hn]
      · rfl
    rw [List.foldl_cons, ih _ hstep, List.count_cons]
    congr 1
    simp only [beq_iff_eq]
    omega

/-- A JSONB column counts its names. -/
theorem lookup_recorded (column : Visit → Dictionary String ℤ) (inserted updated : AddArgs → Option String)
    (hinsert : ∀ id now args, column (Visit.insert id args now) = counter (inserted args))
    (hupdate : ∀ visit args, column (visit.update args) = count (column visit) (updated args))
    (id now : ℤ) (first : AddArgs) (rest : List AddArgs) (name : String) :
    (column (.recorded id now first rest)).lookup name =
      tally ((inserted first :: rest.map updated).count (some name)) := by
  have hrest : ∀ visit, column (rest.foldl Visit.update visit) =
      (rest.map updated).foldl count (column visit) := by
    induction rest with
    | nil => intro visit; rfl
    | cons args rest ih =>
      intro visit
      rw [List.foldl_cons, ih, hupdate, List.map_cons, List.foldl_cons]
  have hfirst : (counter (inserted first)).lookup name =
      tally (if inserted first = some name then 1 else 0) := by
    rw [lookup_counter]
    split_ifs <;> rfl
  rw [Visit.recorded, hrest, hinsert, lookup_foldl_count _ _ _ hfirst, List.count_cons]
  congr 1
  simp only [beq_iff_eq]
  omega

/-- The platform name that `Insert` counts. -/
def AddArgs.kept (args : AddArgs) : Option String :=
  (args.platform.filter fun platform => platform.type ≠ .android ∧ platform.type ≠ .ios).map Platform.name

/-- A name is kept or skipped. -/
theorem count_kept (args : AddArgs) (name : String) :
    [args.kept].count (some name) + [args.skipped].count (some name) =
      [args.platform.map Platform.name].count (some name) := by
  unfold AddArgs.kept AddArgs.skipped
  cases args.platform with
  | none => rfl
  | some platform =>
    by_cases hskip : platform.type = .android ∨ platform.type = .ios
    · have hnot : ¬ (platform.type ≠ .android ∧ platform.type ≠ .ios) := by
        rintro ⟨handroid, hios⟩
        exact hskip.elim handroid hios
      simp [Option.filter, hskip, hnot]
    · have hnot : platform.type ≠ .android ∧ platform.type ≠ .ios := not_or.mp hskip
      simp [Option.filter, hnot]

/-- Insertion and updates count all names, but for the one that the insertion skips. -/
theorem lookup_platforms (id now : ℤ) (first : AddArgs) (rest : List AddArgs) (name : String) :
    (Visit.recorded id now first rest).platforms.lookup name =
      tally (((first :: rest).map fun args => args.platform.map Platform.name).count (some name) -
        [first.skipped].count (some name)) := by
  have hkept := count_kept first name
  have hlookup := lookup_recorded Visit.platforms AddArgs.kept (fun args => args.platform.map Platform.name)
    (fun _ _ _ => rfl) (fun _ _ => rfl) id now first rest name
  rw [hlookup]
  congr 1
  rw [List.count_cons, List.map_cons, List.count_cons]
  simp only [List.count_singleton] at hkept ⊢
  omega

/-! ## Main theorem -/

theorem sameCounters_recorded {id now id' now' : ℤ} {first first' : AddArgs} {rest rest' : List AddArgs}
    (hperm : (first' :: rest').Perm (first :: rest)) (hskipped : first'.skipped = first.skipped)
    (hurl : first'.urlId = first.urlId) :
    (Visit.recorded id' now' first' rest').SameCounters (.recorded id now first rest) := by
  have hcolumn : ∀ (column : Visit → ℤ) (value : AddArgs → ℤ),
      (∀ id now args, column (Visit.insert id args now) = value args) →
      (∀ visit args, column (visit.update args) = column visit + value args) →
        column (.recorded id' now' first' rest') = column (.recorded id now first rest) := by
    intro column value hinsert hupdate
    rw [column_recorded column value hinsert hupdate, column_recorded column value hinsert hupdate,
      (hperm.map value).sum_eq]
  have hlookup : ∀ (column : Visit → Dictionary String ℤ) (key : AddArgs → Option String),
      (∀ id now args, column (Visit.insert id args now) = counter (key args)) →
      (∀ visit args, column (visit.update args) = count (column visit) (key args)) → ∀ name,
        (column (.recorded id' now' first' rest')).lookup name =
          (column (.recorded id now first rest)).lookup name := by
    intro column key hinsert hupdate name
    rw [lookup_recorded column key key hinsert hupdate, lookup_recorded column key key hinsert hupdate,
      ← List.map_cons, ← List.map_cons, (hperm.map key).count_eq]
  constructor
  case platforms =>
    intro name
    rw [lookup_platforms, lookup_platforms, hskipped, (hperm.map _).count_eq]
  case urlId => rw [urlId_recorded, urlId_recorded, hurl]
  case browsers =>
    exact hlookup Visit.browsers (fun args => args.browser.map Browser.browserVersion)
      (fun _ _ _ => rfl) fun _ _ => rfl
  case mobileDeviceTypes =>
    exact hlookup Visit.mobileDeviceTypes AddArgs.mobileDeviceType (fun _ _ _ => rfl) fun _ _ => rfl
  case countries =>
    exact hlookup Visit.countries (fun args => some args.country) (fun _ _ _ => rfl) fun _ _ => rfl
  case referrers =>
    exact hlookup Visit.referrers AddArgs.referrerHost (fun _ _ _ => rfl) fun _ _ => rfl
  case total => exact hcolumn Visit.total (fun _ => 1) (fun _ _ _ => rfl) fun _ _ => rfl
  all_goals exact hcolumn _ _ (fun _ _ _ => rfl) fun _ _ => rfl

/-- Rows that agree had the same name skipped. -/
theorem skipped_of_platforms {id now id' now' : ℤ} {first first' : AddArgs} {rest rest' : List AddArgs}
    (hperm : (first' :: rest').Perm (first :: rest))
    (hplatforms : ∀ name, (Visit.recorded id' now' first' rest').platforms.lookup name =
      (Visit.recorded id now first rest).platforms.lookup name) :
    first'.skipped = first.skipped := by
  have hinj : ∀ m n : ℕ, tally m = tally n → m = n := by
    intro m n h
    unfold tally at h
    split_ifs at h with hm hn
    · omega
    · exact Int.ofNat.inj (Option.some.inj h)
  have hle : ∀ (first : AddArgs) (rest : List AddArgs) (name : String),
      [first.skipped].count (some name) ≤
        ((first :: rest).map fun args => args.platform.map Platform.name).count (some name) := by
    intro first rest name
    have hkept := count_kept first name
    calc [first.skipped].count (some name)
        ≤ [first.platform.map Platform.name].count (some name) := by omega
      _ ≤ _ := (List.singleton_sublist.mpr List.mem_cons_self).count_le _
  have hcount : ∀ name, [first'.skipped].count (some name) = [first.skipped].count (some name) := by
    intro name
    have hname := hplatforms name
    rw [lookup_platforms, lookup_platforms, (hperm.map _).count_eq] at hname
    have hsub := hinj _ _ hname
    have h' := hle first' rest' name
    have h := hle first rest name
    rw [(hperm.map _).count_eq] at h'
    omega
  refine Option.ext fun name => ?_
  have hname := hcount name
  simp only [List.count_singleton, beq_iff_eq] at hname
  split_ifs at hname <;> simp_all

/-- **When the order of the visits does not show.** -/
theorem recorded_alike_iff {table : Table} {now urlId : ℤ} {first : AddArgs} {rest : List AddArgs}
    {row : Visit} (hurl : ∀ args ∈ first :: rest, args.urlId = urlId)
    (h : recordVisits table now first rest = some row) :
    (∀ (table' : Table) (now' : ℤ) (first' : AddArgs) (rest' : List AddArgs) (row' : Visit),
      (first' :: rest').Perm (first :: rest) →
        recordVisits table' now' first' rest' = some row' → row'.SameCounters row) ↔
      SkippedAlike (first :: rest) := by
  rw [recordVisits_eq, Option.ite_none_right_eq_some, Option.some.injEq] at h
  obtain ⟨⟨hsequence, hsmall⟩, rfl⟩ := h
  constructor
  · intro hsame
    -- every visit may come first
    have hfirst : ∀ args ∈ first :: rest, args.skipped = first.skipped := by
      intro args hargs
      have hperm : (args :: (first :: rest).erase args).Perm (first :: rest) :=
        (List.perm_cons_erase hargs).symm
      have hlength : ((first :: rest).erase args).length = rest.length := by
        rw [List.length_erase_of_mem hargs]
        rfl
      have hrow : recordVisits table now args ((first :: rest).erase args) =
          some (.recorded (table.sequence + 1) now args ((first :: rest).erase args)) := by
        rw [recordVisits_eq, hlength, if_pos ⟨hsequence, hsmall⟩]
      exact skipped_of_platforms hperm (hsame table now args _ _ hperm hrow).platforms
    intro args hargs args' hargs'
    rw [hfirst args hargs, hfirst args' hargs']
  · intro halike table' now' first' rest' row' hperm hrow'
    rw [recordVisits_eq, Option.ite_none_right_eq_some, Option.some.injEq] at hrow'
    obtain ⟨-, rfl⟩ := hrow'
    have hmem : first' ∈ first :: rest := hperm.subset List.mem_cons_self
    exact sameCounters_recorded hperm (halike first' hmem first List.mem_cons_self)
      ((hurl first' hmem).trans (hurl first List.mem_cons_self).symm)

/-- Visits by Windows and by Android, of URL 5. -/
def windowsVisit : AddArgs := ⟨5, "de", some ⟨.browser, some ⟨.windows, "Windows 10"⟩, none, none⟩, none⟩

/-- A visit from an Android phone. -/
def androidVisit : AddArgs := ⟨5, "de", some ⟨.browser, some ⟨.android, "Android"⟩, none, none⟩, none⟩

/-- A robot on Linux that comes from a link. -/
def robotVisit : AddArgs :=
  ⟨5, "fr", some ⟨.robot, some ⟨.linux, "Linux"⟩, some ⟨.other, "Googlebot", some "2.1"⟩, none⟩,
    some "example.org"⟩

/-- Nothing is skipped, so that the order of different visits does not show. -/
theorem recorded_alike_threeVisits :
    ∃ row, recordVisits .empty 0 windowsVisit [robotVisit, windowsVisit] = some row ∧
      row.platforms.lookup "Windows 10" = some 2 ∧ row.platforms.lookup "Linux" = some 1 ∧
      ∀ (table' : Table) (now' : ℤ) (first' : AddArgs) (rest' : List AddArgs) (row' : Visit),
        (first' :: rest').Perm [windowsVisit, robotVisit, windowsVisit] →
          recordVisits table' now' first' rest' = some row' → row'.SameCounters row := by
  have hrow : recordVisits .empty 0 windowsVisit [robotVisit, windowsVisit] =
      some (.recorded 1 0 windowsVisit [robotVisit, windowsVisit]) := by
    rw [recordVisits_eq]
    rfl
  have hurl : ∀ args ∈ [windowsVisit, robotVisit, windowsVisit], args.urlId = 5 := by decide
  exact ⟨_, hrow, by decide +kernel, by decide +kernel,
    (recorded_alike_iff hurl hrow).mpr (by decide)⟩

/-- `Android` is counted if the visit by Windows is the first one, and not otherwise. -/
theorem not_recorded_alike_android :
    ∃ row row', recordVisits .empty 0 windowsVisit [androidVisit] = some row ∧
      recordVisits .empty 0 androidVisit [windowsVisit] = some row' ∧
      row.platforms.lookup "Android" = some 1 ∧ row'.platforms.lookup "Android" = none ∧
      ¬ row'.SameCounters row := by
  refine ⟨.recorded 1 0 windowsVisit [androidVisit], .recorded 1 0 androidVisit [windowsVisit], ?_, ?_,
    by decide +kernel, by decide +kernel, ?_⟩
  · rw [recordVisits_eq]
    rfl
  · rw [recordVisits_eq]
    rfl
  · intro hsame
    exact absurd (hsame.platforms "Android") (by decide +kernel)

end Shortener.Stats
