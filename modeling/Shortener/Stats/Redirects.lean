import Shortener.Links.Database
import Shortener.Stats.Counters

/-!
# Counting a redirect

The work item of `IncrementVisitInBackground`
(`Shortener.GrpcBackend/Services/UrlService.cs`, lines 358–394). It increments `TotalViews`
with one statement and writes a row of `Visit` with another one, without a transaction, and may
throw anywhere. The worker logs the exception and takes the next item
(`Shortener.Shared/Services/TaskQueuingService.cs`, lines 53–78). The items of several
replicas may interleave.

* `countingInv_step`: `TotalViews` is ahead of the rows by the items in between and the items
  that threw in between.
* `redirects_counted`: what is left of that when no item is running.
* `not_allOrNothing_ip`: an address that cannot be parsed is enough.
-/

namespace Shortener.Stats

open Shortener.Common Shortener.DotNet Shortener.Codec

/-! ## Work items -/

/-- `RedirectRequest`. -/
structure RedirectRequest where
  shortId : String
  ip : String
  userAgent : Option String
  referrer : Option String
  deriving DecidableEq, Repr

/-- What the item uses of the runtime and of packages. `ι` is `IPAddress`. -/
structure Services (ι : Type) where
  env : Globalization
  /-- `IPAddress.Parse`, nothing if it throws -/
  parseIp : String → Option ι
  /-- `GeoIpService.GetCountry` -/
  getCountry : ι → Option String
  /-- `IHttpUserAgentParserProvider.Parse` -/
  parser : String → HttpUserAgentInformation
  /-- `Uri.TryCreate` -/
  tryCreate : String → Option Uri

/-- What the item passes to `Add` (lines 377–391), and what `Add` makes of it. -/
def RedirectRequest.addArgs {ι : Type} (services : Services ι) (request : RedirectRequest) (id : ℤ) :
    Option AddArgs := do
  let ip ← services.parseIp request.ip
  let country := services.getCountry ip
  let userAgent := request.userAgent.map fun userAgent => UserAgent.parse (services.parser userAgent)
  let referrer := request.referrer.bind fun referrer =>
    (isValidHttpUrl services.tryCreate referrer).map Uri.host
  return .ofRequest services.env id country userAgent referrer

/-- How far an item has come. -/
inductive Stage
  | started
  /-- `IncrementVisit` has run, for URL `id` -/
  | incremented (id : ℤ)
  /-- `GetLastHour` has run -/
  | queried (args : AddArgs) (existing : Option Visit)

/-- A work item in progress. -/
structure Item where
  request : RedirectRequest
  stage : Stage

/-- The URL for which the item has run `IncrementVisit`. -/
def Item.incremented (item : Item) : Option ℤ :=
  match item.stage with
  | .started => none
  | .incremented id => some id
  | .queried args _ => some args.urlId

/-- The database, the items that are running, the URLs of those that have ended, and the URLs
    that those which threw had incremented. -/
structure Counting where
  database : Links.Database
  table : Table
  items : Dictionary ℕ Item
  counted : List ℤ
  lost : List ℤ

/-- What can happen next. -/
inductive Redirect
  /-- The worker takes item `n`, which is not canceled. -/
  | start (n : ℕ) (request : RedirectRequest)
  /-- `ParseId` and `IncrementVisit`. -/
  | incrementVisit (n : ℕ)
  /-- Everything up to `GetLastHour`, which takes the `i`-th row. -/
  | query (n : ℕ) (now : ℤ) (i : ℕ)
  /-- The `INSERT` or `UPDATE`. -/
  | write (n : ℕ) (now : ℤ)
  /-- Item `n` throws, or its statement fails. -/
  | throw (n : ℕ)
  deriving DecidableEq, Repr

/-- The `UPDATE` of `IncrementVisit` stays in the range of `INT`. -/
def HasRoom (database : Links.Database) (id : ℤ) : Prop :=
  ∀ url ∈ database.urls, url.id = id → url.totalViews + 1 < 2 ^ 31

instance (database : Links.Database) (id : ℤ) : Decidable (HasRoom database id) :=
  inferInstanceAs (Decidable (∀ url ∈ database.urls, url.id = id → url.totalViews + 1 < 2 ^ 31))

/-- A step of the work items, which are for URLs that exist. -/
def redirectStep {ι : Type} (services : Services ι) (s : Counting) : Redirect → Option Counting
  | .start n request =>
    match parseId request.shortId with
    | .ret id =>
      if s.items.lookup n = none ∧ ∃ url ∈ s.database.urls, url.id = id.index then
        some { s with items := s.items.insert n ⟨request, .started⟩ }
      else none
    | _ => none
  | .incrementVisit n =>
    match s.items.lookup n with
    | some ⟨request, .started⟩ =>
      match parseId request.shortId with
      | .ret id =>
        if HasRoom s.database id.index then
          some { s with
            database := s.database.incrementVisit id.index
            items := s.items.insert n ⟨request, .incremented id.index⟩ }
        else none
      | _ => none
    | _ => none
  | .query n now i =>
    match s.items.lookup n with
    | some ⟨request, .incremented id⟩ =>
      (request.addArgs services id).bind fun args =>
        (s.table.getLastHour id now i).map fun existing =>
          { s with items := s.items.insert n ⟨request, .queried args existing⟩ }
    | _ => none
  | .write n now =>
    match s.items.lookup n with
    | some ⟨_, .queried args existing⟩ =>
      (s.table.write existing args now).map fun table =>
        { s with
          table := table
          items := s.items.erase n
          counted := s.counted ++ [args.urlId] }
    | _ => none
  | .throw n =>
    (s.items.lookup n).map fun item =>
      { s with items := s.items.erase n, lost := s.lost ++ item.incremented.toList }

/-- What the two tables say about a URL: the sum of `Total` over its rows. -/
def Counting.rowViews (s : Counting) (urlId : ℤ) : ℤ :=
  ((s.table.ofUrl urlId).map Visit.total).sum

/-- No item is running, and both tables agree. -/
structure Counting.Consistent (s : Counting) : Prop where
  keyed : s.table.WellKeyed
  idle : s.items = ∅
  counted : s.counted = []
  lost : s.lost = []
  agree : ∀ url ∈ s.database.urls, url.totalViews = s.rowViews url.id

/-- The step is not an item throwing between its two statements. -/
def KeepsBoth (s : Counting) : Redirect → Prop
  | .throw n => ∀ item ∈ s.items.lookup n, item.incremented = none
  | _ => True

instance (s : Counting) (e : Redirect) : Decidable (KeepsBoth s e) :=
  match e with
  | .throw n => inferInstanceAs (Decidable (∀ item ∈ s.items.lookup n, item.incremented = none))
  | .start .. | .incrementVisit _ | .query .. | .write .. => inferInstanceAs (Decidable True)

/-! ## Steps -/

theorem redirectStep_cases {ι : Type} {services : Services ι} {s t : Counting} {e : Redirect}
    (h : redirectStep services s e = some t) :
    (∃ n request id, e = .start n request ∧ parseId request.shortId = .ret id ∧
      s.items.lookup n = none ∧ (∃ url ∈ s.database.urls, url.id = id.index) ∧
      t = { s with items := s.items.insert n ⟨request, .started⟩ }) ∨
    (∃ n request id, e = .incrementVisit n ∧ s.items.lookup n = some ⟨request, .started⟩ ∧
      parseId request.shortId = .ret id ∧
      t = { s with
        database := s.database.incrementVisit id.index
        items := s.items.insert n ⟨request, .incremented id.index⟩ }) ∨
    (∃ n now i request id args existing, e = .query n now i ∧
      s.items.lookup n = some ⟨request, .incremented id⟩ ∧ args.urlId = id ∧
      s.table.getLastHour id now i = some existing ∧
      t = { s with items := s.items.insert n ⟨request, .queried args existing⟩ }) ∨
    (∃ n now request args existing table, e = .write n now ∧
      s.items.lookup n = some ⟨request, .queried args existing⟩ ∧
      s.table.write existing args now = some table ∧
      t = { s with
        table := table
        items := s.items.erase n
        counted := s.counted ++ [args.urlId] }) ∨
    ∃ n item, e = .throw n ∧ s.items.lookup n = some item ∧
      t = { s with items := s.items.erase n, lost := s.lost ++ item.incremented.toList } := by
  cases e with
  | start n request =>
    simp only [redirectStep] at h
    split at h
    · rename_i id hparse
      rw [Option.ite_none_right_eq_some, Option.some.injEq] at h
      obtain ⟨⟨hnone, hurl⟩, rfl⟩ := h
      exact .inl ⟨n, request, id, rfl, hparse, hnone, hurl, rfl⟩
    · cases h
  | incrementVisit n =>
    simp only [redirectStep] at h
    split at h
    · rename_i request hitem
      split at h
      · rename_i id hparse
        rw [Option.ite_none_right_eq_some, Option.some.injEq] at h
        obtain ⟨-, rfl⟩ := h
        exact .inr (.inl ⟨n, request, id, rfl, hitem, hparse, rfl⟩)
      · cases h
    · cases h
  | query n now i =>
    simp only [redirectStep] at h
    split at h
    · rename_i request id hitem
      simp only [Option.bind_eq_some_iff, Option.map_eq_some_iff] at h
      obtain ⟨args, hargs, existing, hlast, rfl⟩ := h
      have hurl : args.urlId = id := by
        simp only [RedirectRequest.addArgs, Option.bind_eq_bind, Option.bind_eq_some_iff,
          Option.pure_def, Option.some.injEq] at hargs
        obtain ⟨_, -, rfl⟩ := hargs
        rfl
      exact .inr (.inr (.inl ⟨n, now, i, request, id, args, existing, rfl, hitem, hurl, hlast, rfl⟩))
    · cases h
  | write n now =>
    simp only [redirectStep] at h
    split at h
    · rename_i request args existing hitem
      obtain ⟨table, hwrite, rfl⟩ := Option.map_eq_some_iff.mp h
      exact .inr (.inr (.inr (.inl
        ⟨n, now, request, args, existing, table, rfl, hitem, hwrite, rfl⟩)))
    · cases h
  | throw n =>
    obtain ⟨item, hitem, rfl⟩ := Option.map_eq_some_iff.mp h
    exact .inr (.inr (.inr (.inr ⟨n, item, rfl, hitem, rfl⟩)))

/-! ## Invariant -/

/-- The item is for a URL that exists, and the row it is going to update is one of it. -/
structure ItemInv (database : Links.Database) (table : Table) (item : Item) : Prop where
  known : ∀ id, parseId item.request.shortId = .ret id → ∃ url ∈ database.urls, url.id = id.index
  incremented : ∀ urlId ∈ item.incremented, ∃ url ∈ database.urls, url.id = urlId
  existing : ∀ args visit, item.stage = .queried args (some visit) →
    ∃ row, table.visits.lookup visit.id = some row ∧ row.urlId = args.urlId

/-- An item between its two statements, for the URL. -/
def pending (urlId : ℤ) (item : Item) : ℤ := flag (item.incremented = some urlId)

/-- What the counters and the rows say of the items. -/
structure CountingInv (start : ℤ → ℤ) (s : Counting) : Prop where
  keyed : s.table.WellKeyed
  items : ∀ n, ∀ item ∈ s.items.lookup n, ItemInv s.database s.table item
  lost : ∀ urlId ∈ s.lost, ∃ url ∈ s.database.urls, url.id = urlId
  views : ∀ url ∈ s.database.urls, url.totalViews =
    start url.id + s.counted.count url.id + s.lost.count url.id + s.items.sumOf (pending url.id)
  rows : ∀ urlId, s.table.visits.sumOf (totalOf urlId) = start urlId + s.counted.count urlId

theorem rowViews_eq (s : Counting) (urlId : ℤ) :
    s.rowViews urlId = s.table.visits.sumOf (totalOf urlId) := by
  unfold Counting.rowViews totalOf
  exact Table.sum_ofUrl _ _ _

theorem countingInv_start {s : Counting} (h : s.Consistent) : CountingInv s.rowViews s where
  keyed := h.keyed
  items n item hitem := by
    rw [h.idle] at hitem
    cases hitem
  lost urlId hlost := by
    rw [h.lost] at hlost
    cases hlost
  views url hurl := by
    rw [h.counted, h.lost, h.idle, h.agree url hurl]
    simp
  rows urlId := by
    rw [h.counted, rowViews_eq]
    simp

/-- `IncrementVisit` keeps the ids and adds one to `TotalViews` of its URL. -/
theorem mem_incrementVisit {database : Links.Database} {id : ℤ} {url : Links.UrlRow}
    (h : url ∈ (database.incrementVisit id).urls) :
    ∃ old ∈ database.urls, old.id = url.id ∧ url.totalViews = old.totalViews + flag (id = url.id) := by
  obtain ⟨old, hold, rfl⟩ := List.mem_map.mp h
  refine ⟨old, hold, ?_⟩
  by_cases hid : old.id = id
  · rw [if_pos hid]
    exact ⟨rfl, by rw [flag, if_pos hid.symm]⟩
  · rw [if_neg hid]
    exact ⟨rfl, by rw [flag, if_neg (Ne.symm hid), add_zero]⟩

theorem exists_incrementVisit {database : Links.Database} {id urlId : ℤ}
    (h : ∃ url ∈ database.urls, url.id = urlId) :
    ∃ url ∈ (database.incrementVisit id).urls, url.id = urlId := by
  obtain ⟨url, hurl, rfl⟩ := h
  refine ⟨_, List.mem_map_of_mem hurl, ?_⟩
  split_ifs <;> rfl

theorem pending_erase {items : Dictionary ℕ Item} {n : ℕ} {old : Item} (urlId : ℤ)
    (h : items.lookup n = some old) :
    Dictionary.sumOf (pending urlId) (items.erase n) =
      items.sumOf (pending urlId) - flag (old.incremented = some urlId) := by
  have hsum := Dictionary.sumOf_eq_erase (pending urlId) items n
  rw [h, Option.elim_some] at hsum
  unfold pending at hsum ⊢
  omega

section

variable {start : ℤ → ℤ} {s : Counting} {n : ℕ} {request : RedirectRequest}

/-- A new item has not run anything. -/
theorem CountingInv.started {id : ShortId} (hi : CountingInv start s)
    (hparse : parseId request.shortId = .ret id) (hnone : s.items.lookup n = none)
    (hurl : ∃ url ∈ s.database.urls, url.id = id.index) :
    CountingInv start { s with items := s.items.insert n ⟨request, .started⟩ } := by
  refine ⟨hi.keyed, Dictionary.forall_insert hi.items ⟨?_, ?_, ?_⟩, hi.lost, ?_, hi.rows⟩
  · intro id' hid'
    obtain rfl := Exec.ret.inj (hparse.symm.trans hid')
    exact hurl
  · intro urlId hurlId
    cases hurlId
  · intro args visit hstage
    cases hstage
  · intro url hmem
    rw [hi.views url hmem, Dictionary.sumOf_insert_new _ hnone]
    simp [pending, Item.incremented, flag]

/-- `TotalViews` and the pending items of the URL grow by one. -/
theorem CountingInv.incremented {id : ShortId} (hi : CountingInv start s)
    (hitem : s.items.lookup n = some ⟨request, .started⟩) (hparse : parseId request.shortId = .ret id) :
    CountingInv start { s with
      database := s.database.incrementVisit id.index
      items := s.items.insert n ⟨request, .incremented id.index⟩ } := by
  have hold := hi.items n _ hitem
  refine ⟨hi.keyed, Dictionary.forall_insert (fun m item hm => ?_) ⟨?_, ?_, ?_⟩,
    fun urlId hlost => exists_incrementVisit (hi.lost urlId hlost), ?_, hi.rows⟩
  · have hother := hi.items m item hm
    exact ⟨fun id hid => exists_incrementVisit (hother.known id hid),
      fun urlId hurl => exists_incrementVisit (hother.incremented urlId hurl), hother.existing⟩
  · exact fun id' hid' => exists_incrementVisit (hold.known id' hid')
  · rintro urlId ⟨⟩
    exact exists_incrementVisit (hold.known id hparse)
  · intro args visit hstage
    cases hstage
  · intro url hmem
    obtain ⟨old, hurl, hid, hviews⟩ := mem_incrementVisit hmem
    have hbefore := hi.views old hurl
    rw [hid] at hbefore
    rw [hviews, hbefore, Dictionary.sumOf_insert_old _ hitem]
    simp only [pending, Item.incremented, Option.some.injEq]
    simp only [flag, reduceCtorEq, if_false]
    omega

/-- The item stays pending, with the row that it has found. -/
theorem CountingInv.queried {now : ℤ} {i : ℕ} {args : AddArgs} {existing : Option Visit}
    (hi : CountingInv start s) (hitem : s.items.lookup n = some ⟨request, .incremented args.urlId⟩)
    (hlast : s.table.getLastHour args.urlId now i = some existing) :
    CountingInv start { s with items := s.items.insert n ⟨request, .queried args existing⟩ } := by
  have hold := hi.items n _ hitem
  refine ⟨hi.keyed, Dictionary.forall_insert hi.items ⟨hold.known, ?_, ?_⟩, hi.lost, ?_, hi.rows⟩
  · rintro urlId ⟨⟩
    exact hold.incremented _ rfl
  · rintro args' visit ⟨⟩
    obtain ⟨⟨id', hid'⟩, hurl⟩ := Table.mem_ofUrl.mp (Table.getLastHour_some hlast).1
    exact ⟨visit, by rw [(hi.keyed id' visit hid').1, hid'], hurl⟩
  · intro url hmem
    have hpending : pending url.id ⟨request, .queried args existing⟩ =
        pending url.id ⟨request, .incremented args.urlId⟩ := rfl
    rw [hi.views url hmem, Dictionary.sumOf_insert_old _ hitem, hpending, sub_self, add_zero]

/-- A pending item becomes one that has ended, and the rows of its URL grow by one. -/
theorem CountingInv.written {now : ℤ} {args : AddArgs} {existing : Option Visit} {table : Table}
    (hi : CountingInv start s) (hitem : s.items.lookup n = some ⟨request, .queried args existing⟩)
    (hwrite : s.table.write existing args now = some table) :
    CountingInv start { s with
      table := table
      items := s.items.erase n
      counted := s.counted ++ [args.urlId] } := by
  have hold := hi.items n _ hitem
  have htotal := total_write hi.keyed (fun visit hv => hold.existing args visit (by rw [hv])) hwrite
  refine ⟨hi.keyed.write hwrite, Dictionary.forall_erase n fun m item hm => ?_, hi.lost, ?_, ?_⟩
  · have hother := hi.items m item hm
    refine ⟨hother.known, hother.incremented, ?_⟩
    intro args' visit hstage
    obtain ⟨row, hrow, hurl⟩ := hother.existing args' visit hstage
    obtain ⟨row', hrow', hurl'⟩ := lookup_write_of_lookup hi.keyed hwrite hrow
    exact ⟨row', hrow', hurl'.trans hurl⟩
  · intro url hmem
    rw [hi.views url hmem, pending_erase _ hitem, List.count_append, List.count_singleton]
    simp only [Item.incremented, Option.some.injEq, flag, beq_iff_eq]
    split_ifs <;> omega
  · intro urlId
    rw [htotal, hi.rows, List.count_append, List.count_singleton]
    simp only [flag, beq_iff_eq]
    split_ifs <;> omega

theorem count_incremented (item : Item) (urlId : ℤ) :
    (item.incremented.toList.count urlId : ℤ) = flag (item.incremented = some urlId) := by
  cases item.incremented with
  | none => rfl
  | some id =>
    simp only [Option.toList_some, List.count_singleton, flag, Option.some.injEq, beq_iff_eq]
    split_ifs <;> rfl

/-- A pending item becomes a lost one. -/
theorem CountingInv.thrown {item : Item} (hi : CountingInv start s) (hitem : s.items.lookup n = some item) :
    CountingInv start { s with items := s.items.erase n, lost := s.lost ++ item.incremented.toList } := by
  have hold := hi.items n _ hitem
  refine ⟨hi.keyed, Dictionary.forall_erase n hi.items, ?_, ?_, hi.rows⟩
  · intro urlId hlost
    rcases List.mem_append.mp hlost with hlost | hlost
    · exact hi.lost urlId hlost
    · exact hold.incremented urlId (Option.mem_toList.mp hlost)
  · intro url hmem
    have hcount := count_incremented item url.id
    rw [hi.views url hmem, pending_erase _ hitem, List.count_append]
    push_cast
    omega

end

theorem countingInv_step {ι : Type} {services : Services ι} {start : ℤ → ℤ} {s t : Counting}
    {e : Redirect} (hi : CountingInv start s) (h : redirectStep services s e = some t) :
    CountingInv start t := by
  rcases redirectStep_cases h with ⟨n, request, id, -, hparse, hnone, hurl, rfl⟩ |
    ⟨n, request, id, -, hitem, hparse, rfl⟩ |
    ⟨n, now, i, request, id, args, existing, -, hitem, rfl, hlast, rfl⟩ |
    ⟨n, now, request, args, existing, table, -, hitem, hwrite, rfl⟩ | ⟨n, item, -, hitem, rfl⟩
  · exact hi.started hparse hnone hurl
  · exact hi.incremented hitem hparse
  · exact hi.queried hitem hlast
  · exact hi.written hitem hwrite
  · exact hi.thrown hitem

/-- Whether an item gets lost shows at once. -/
theorem lost_step {ι : Type} {services : Services ι} {s t : Counting} {e : Redirect}
    (h : redirectStep services s e = some t) : t.lost = [] ↔ s.lost = [] ∧ KeepsBoth s e := by
  rcases redirectStep_cases h with ⟨n, request, id, rfl, -, -, -, rfl⟩ |
    ⟨n, request, id, rfl, -, -, rfl⟩ | ⟨n, now, i, request, id, args, existing, rfl, -, -, -, rfl⟩ |
    ⟨n, now, request, args, existing, table, rfl, -, -, rfl⟩ | ⟨n, item, rfl, hitem, rfl⟩
  · exact (and_iff_left trivial).symm
  · exact (and_iff_left trivial).symm
  · exact (and_iff_left trivial).symm
  · exact (and_iff_left trivial).symm
  · simp [KeepsBoth, hitem]

/-! ## Main theorem -/

/-- **What counting a redirect keeps.** -/
theorem redirects_counted {ι : Type} {services : Services ι} {s t : Counting} {es : List Redirect}
    (hs : s.Consistent) (h : Run (redirectStep services) always s es t) (hidle : t.items = ∅) :
    (∀ url ∈ t.database.urls,
      t.rowViews url.id = s.rowViews url.id + t.counted.count url.id ∧
        url.totalViews = t.rowViews url.id + t.lost.count url.id) ∧
    ((∀ url ∈ t.database.urls, url.totalViews = t.rowViews url.id) ↔
      Run (redirectStep services) KeepsBoth s es t) := by
  have hinv : CountingInv s.rowViews t :=
    h.invariant (countingInv_start hs) fun s e t hi _ hstep => countingInv_step hi hstep
  have hviews : ∀ url ∈ t.database.urls,
      t.rowViews url.id = s.rowViews url.id + t.counted.count url.id ∧
        url.totalViews = t.rowViews url.id + t.lost.count url.id := by
    intro url hurl
    have hrow := hinv.rows url.id
    have htotal := hinv.views url hurl
    rw [hidle, Dictionary.sumOf_empty] at htotal
    rw [rowViews_eq t]
    exact ⟨hrow, by omega⟩
  have hlost : t.lost = [] ↔ Run (redirectStep services) KeepsBoth s es t :=
    h.safe_iff (countingInv_start hs) hs.lost (fun _ _ _ hi hstep => countingInv_step hi hstep)
      fun _ _ _ _ hstep => lost_step hstep
  refine ⟨hviews, ?_⟩
  rw [← hlost]
  constructor
  · intro hagree
    refine List.eq_nil_iff_forall_not_mem.mpr fun urlId hmem => ?_
    obtain ⟨url, hurl, rfl⟩ := hinv.lost urlId hmem
    have hcount := List.count_pos_iff.mpr hmem
    have hahead := (hviews url hurl).2
    have hequal := hagree url hurl
    omega
  · intro hnil url hurl
    rw [(hviews url hurl).2, hnil]
    simp

/-- `192.0.2.1` is an address, of no country. -/
def oneAddress : Services Unit where
  env := .invariantMode
  parseIp ip := if ip = "192.0.2.1" then some () else none
  getCountry _ := none
  parser _ := ⟨.unknown, none, none, none, none⟩
  tryCreate _ := none

/-- A shard with URL 5 and no visits. -/
def oneUrl : Counting :=
  ⟨⟨[], 0, [⟨5, 1, 1, "https://example.com", 0⟩], 5⟩, .empty, ∅, [], []⟩

theorem consistent_oneUrl : oneUrl.Consistent where
  keyed := by simp [oneUrl, Table.WellKeyed, Table.empty]
  idle := rfl
  counted := rfl
  lost := rfl
  agree := by decide

/-- A redirect from an address that cannot be parsed. -/
def badIp : RedirectRequest := ⟨"1L9zO9T", "unknown", none, none⟩

/-- Item 0 ends, item 1 throws between its statements, and item 2 before them. -/
def threeRedirects : List Redirect :=
  [.start 0 ⟨"1L9zO9T", "192.0.2.1", none, none⟩, .start 1 badIp, .incrementVisit 0,
    .incrementVisit 1, .query 0 0 0, .throw 1, .start 2 badIp, .write 0 0, .throw 2]

/-- Two redirects have been incremented, and one of them is in a row. -/
theorem redirects_counted_threeRedirects :
    ∃ t, Run (redirectStep oneAddress) always oneUrl threeRedirects t ∧ t.items = ∅ ∧
      t.counted = [5] ∧ t.lost = [5] ∧
      (∀ url ∈ t.database.urls,
        t.rowViews url.id = oneUrl.rowViews url.id + t.counted.count url.id ∧
          url.totalViews = t.rowViews url.id + t.lost.count url.id) ∧
      ((∀ url ∈ t.database.urls, url.totalViews = t.rowViews url.id) ↔
        Run (redirectStep oneAddress) KeepsBoth oneUrl threeRedirects t) ∧
      ¬ Run (redirectStep oneAddress) KeepsBoth oneUrl threeRedirects t := by
  have hrun : Run (redirectStep oneAddress) always oneUrl threeRedirects
      ((threeRedirects.foldlM (redirectStep oneAddress) oneUrl).getD oneUrl) :=
    run_iff_foldlM.mpr rfl
  have hcounted := redirects_counted consistent_oneUrl hrun rfl
  refine ⟨_, hrun, rfl, rfl, rfl, hcounted.1, hcounted.2, ?_⟩
  rw [← hcounted.2]
  intro hagree
  have hequal := hagree ⟨5, 1, 1, "https://example.com", 2⟩ (by decide +kernel)
  have hviews := (hcounted.1 ⟨5, 1, 1, "https://example.com", 2⟩ (by decide +kernel)).2
  rw [← hequal] at hviews
  exact absurd hviews (by decide +kernel)

/-- A redirect whose address does not parse. -/
def badRedirect : List Redirect := [.start 0 badIp, .incrementVisit 0, .throw 0]

/-- `TotalViews` counts a redirect that no row counts. -/
theorem not_allOrNothing_ip :
    badIp.addArgs oneAddress 5 = none ∧
    ∃ t, Run (redirectStep oneAddress) always oneUrl badRedirect t ∧ t.items = ∅ ∧
      ∃ url ∈ t.database.urls, url.totalViews = 1 ∧ t.rowViews url.id = 0 := by
  have hrun : Run (redirectStep oneAddress) always oneUrl badRedirect
      ((badRedirect.foldlM (redirectStep oneAddress) oneUrl).getD oneUrl) := run_iff_foldlM.mpr rfl
  exact ⟨rfl, _, hrun, rfl, ⟨5, 1, 1, "https://example.com", 1⟩, by decide +kernel, rfl, rfl⟩

end Shortener.Stats
