import Shortener.Urls.EdgeWalk

/-!
# Walking by the cursors in the page info

The next cursor is `StartCursor` or `EndCursor`. It is the cursor of the row that was left out
of the page, which has the largest id of the rows fetched, while the query starts strictly
beyond its cursor. The newest first, that row is never on a later page. The oldest first, it can
be where its cursor was cut off to an earlier millisecond.

* `Backend.continuesListing_iff`: when a call with this cursor continues the listing.
* `advances_latestFirst`, `advances_latestLast`: the cursors of a walk that ends do not go back.
* `pageInfoCursor_iff`: these, and when the walk receives every URL once.
* `pageInfoCursor_loses`: two URLs in pages of one.
-/

namespace Shortener.Urls

open Shortener.Common Shortener.DotNet Shortener.Codec Shortener.Stats

variable {backend : Backend}

/-- The cursor in the page info. -/
def pageInfoCursor (latestFirst : Bool) (connection : Connection Grpc.UrlStats) : Option String :=
  connection.pageInfo.continuation latestFirst

theorem Backend.follows_pageInfoCursor (backend : Backend) (latestFirst : Bool) :
    backend.Follows latestFirst (pageInfoCursor latestFirst) fun _ z => z where
  choose_eq := fun _ _ => .inr rfl
  next_eq := by
    intro page e z connection hinfo _
    rw [pageInfoCursor, hinfo, PageInfo.continuation_more]

/-! ## One call -/

/-- The next call, with the cursor in the page info of `connection`, returns a page whose
    first edge is of the URL right after that of the last edge of `connection`. -/
def Backend.ContinuesListing (backend : Backend) (clock : Url → ℤ) (latestFirst : Bool)
    (userId : ℤ) (n : ℕ) (connection : Connection Grpc.UrlStats) : Prop :=
  ∃ connection' before b x after edge edge',
    backend.getByUserId clock
      (pageRequest latestFirst userId n (pageInfoCursor latestFirst connection)) =
        .ret connection' ∧
    backend.table.listing userId latestFirst = before ++ b :: x :: after ∧
    connection.edges.getLast? = some edge ∧ backend.EdgeOf b edge ∧
    connection'.edges.head? = some edge' ∧ backend.EdgeOf x edge'

/-- The row right after `e` in the listing has the least id of the first `n + 1` rows beyond the
    cursor of `z`, and the page of these rows can be converted. -/
def Backend.StartsAfter (backend : Backend) (latestFirst : Bool) (userId : ℤ) (n : ℕ)
    (e z : Url) : Prop :=
  let cursor := some (z.id, floorMillisecond z.updatedAt)
  let rows := (backend.table.beyond userId latestFirst cursor).take (n + 1)
  (∃ before x after, backend.table.listing userId latestFirst = before ++ e :: x :: after ∧
    x ∈ rows ∧ ∀ url ∈ rows, x.id ≤ url.id) ∧
  ∀ url ∈ (sortBy Url.id rows).take n, backend.Converts url

theorem Backend.continuesListing_iff (clock : Url → ℤ) {latestFirst : Bool} {userId : ℤ} {n : ℕ}
    (hn : 1 ≤ n ∧ n ≤ 50) {connection : Connection Grpc.UrlStats} {e z : Url}
    {edge : Edge Grpc.UrlStats} (he : e ∈ backend.table.rows) (hz : z ∈ backend.table.rows)
    (hinfo : connection.pageInfo = .more latestFirst (createCursor z.id z.updatedAt))
    (hlast : connection.edges.getLast? = some edge) (hedge : backend.EdgeOf e edge) :
    backend.ContinuesListing clock latestFirst userId n connection ↔
      backend.StartsAfter latestFirst userId n e z := by
  have hcursor : parseCursor? (pageInfoCursor latestFirst connection) =
      .ret (some (z.id, floorMillisecond z.updatedAt)) := by
    rw [pageInfoCursor, hinfo, PageInfo.continuation_more, parse_createCursor hz]
  have hids : (((backend.table.beyond userId latestFirst
      (some (z.id, floorMillisecond z.updatedAt))).take (n + 1)).map Url.id).Nodup := by
    have hsublist := (List.take_sublist (n + 1) (backend.table.beyond userId latestFirst
      (some (z.id, floorMillisecond z.updatedAt)))).trans List.filter_sublist
    exact (backend.table.listing_nodup_id userId latestFirst).sublist (hsublist.map Url.id)
  have hmemListing : ∀ {before : List Url} {b x : Url} {after : List Url},
      backend.table.listing userId latestFirst = before ++ b :: x :: after →
        b ∈ backend.table.rows ∧ x ∈ backend.table.rows := by
    intro before b x after hlisting
    have hmem : ∀ url ∈ before ++ b :: x :: after, url ∈ backend.table.rows := fun url hurl =>
      UrlTable.mem_rows_of_listing (hlisting ▸ hurl)
    exact ⟨hmem b (by simp), hmem x (by simp)⟩
  have htake : ∀ {l : List Url}, (l.take n).head? = l.head? := by
    intro l
    rw [show n = n - 1 + 1 by omega]
    cases l <;> rfl
  constructor
  · intro hcontinues
    obtain ⟨connection', before, b, x, after, edge₀, edge', hcall, hlisting, hlast', hb, hhead, hx⟩ :=
      hcontinues
    obtain rfl := Option.some.inj (hlast.symm.trans hlast')
    obtain ⟨hbmem, hxmem⟩ := hmemListing hlisting
    obtain rfl := hb.unique hedge hbmem he
    have hedges := reply_edges hn hcursor hcall
    -- the first edge is of the row with the least id
    obtain ⟨rest, hrest⟩ := List.head?_eq_some_iff.mp hhead
    have hedges' := hedges
    rw [hrest] at hedges'
    obtain ⟨r, rows, hr, -, hrows⟩ := List.forall₂_cons_right_iff.mp hedges'
    have hrmem : r ∈ backend.table.rows :=
      mem_rows_of_fetched (List.mem_of_mem_take (hrows ▸ List.mem_cons_self))
    obtain rfl := hr.unique hx hrmem hxmem
    have hfirst : (backend.table.fetched userId latestFirst (n + 1)
        (some (z.id, floorMillisecond z.updatedAt))).head? = some r := by
      rw [← htake, hrows]
      rfl
    have hconverts := hedges.imp fun url edge h => And.intro h.converts h
    exact ⟨⟨before, r, after, hlisting, (head?_sortBy_iff hids).mp hfirst⟩,
      ((List.forall₂_and_left _ _).mp hconverts).1⟩
  · intro hstarts
    obtain ⟨⟨before, x, after, hlisting, hleast⟩, hconverts⟩ := hstarts
    have hfirst := (head?_sortBy_iff hids).mpr hleast
    obtain ⟨connection', hcall⟩ := reply_returns clock hn hcursor
      (List.ne_nil_of_mem (List.mem_of_mem_take hleast.1)) hconverts
    have hedges := reply_edges hn hcursor hcall
    rw [← htake] at hfirst
    obtain ⟨rest, hrest⟩ := List.head?_eq_some_iff.mp hfirst
    rw [show (backend.table.fetched userId latestFirst (n + 1)
      (some (z.id, floorMillisecond z.updatedAt))).take n = x :: rest from hrest] at hedges
    obtain ⟨edge', edges, hedge', -, hedges'⟩ := List.forall₂_cons_left_iff.mp hedges
    exact ⟨connection', before, e, x, after, edge, edge', hcall, hlisting, hlast, hedge,
      by rw [hedges']; rfl, hedge'⟩

/-- A reply that announces another page: its last edge, and the row left out. -/
theorem Backend.reply_more {latestFirst : Bool} {userId : ℤ} {n : ℕ} (hn : 1 ≤ n ∧ n ≤ 50)
    {clock : Url → ℤ} {cursor : Option String} {connection : Connection Grpc.UrlStats}
    (hcall : backend.getByUserId clock (pageRequest latestFirst userId n cursor) = .ret connection)
    (hmore : connection.pageInfo.hasMore latestFirst = true) :
    ∃ parsed page e z edge, parseCursor? cursor = .ret parsed ∧
      backend.table.fetched userId latestFirst (n + 1) parsed = page ++ [e, z] ∧
      connection.pageInfo = .more latestFirst (createCursor z.id z.updatedAt) ∧
      connection.edges.getLast? = some edge ∧ backend.EdgeOf e edge := by
  obtain ⟨query, hquery, -⟩ := Exec.bind_eq_ret_iff.mp hcall
  obtain ⟨parsed, hcursor⟩ : ∃ parsed, parseCursor? cursor = .ret parsed := by
    cases latestFirst
    · obtain ⟨parsed, hparse, -⟩ := Exec.bind_eq_ret_iff.mp hquery
      exact ⟨parsed, hparse⟩
    · obtain ⟨parsed, hparse, -⟩ := Exec.bind_eq_ret_iff.mp hquery
      exact ⟨parsed, hparse⟩
  rcases reply_cases hn hcursor hcall with ⟨-, -, hinfo, -⟩ | ⟨page, e, z, -, hfetched, hinfo, hedges⟩
  · rw [hinfo, PageInfo.hasMore_empty] at hmore
    cases hmore
  · obtain ⟨edge, hlast, hedge⟩ := lastEdge_of_append hedges
    exact ⟨parsed, page, e, z, edge, hcursor, hfetched, hinfo, hlast, hedge⟩

/-! ## Cursors of a walk -/

theorem latestFirst_cutPlace_iff (z : Url) : ¬ cutPlace true z < rowPlace true z := by
  have hfloor := floorMillisecond_le z.updatedAt
  simp only [rowPlace, cutPlace, place, if_true, Prod.Lex.toLex_lt_toLex]
  omega

theorem latestLast_cutPlace_iff (z : Url) :
    cutPlace false z < rowPlace false z ↔ ¬ millisecond ∣ z.updatedAt := by
  have hfloor := floorMillisecond_le z.updatedAt
  rw [← floorMillisecond_eq_iff]
  simp only [rowPlace, cutPlace, place, Bool.false_eq_true, if_false, Prod.Lex.toLex_lt_toLex]
  omega

/-- The newest first, the cursor of a row lies behind the row. -/
theorem advances_latestFirst (userId : ℤ) (n : ℕ) :
    Advances (rowPlace true) Url.id (cutPlace true) n (backend.table.listing userId true) := by
  intro x page e z received hlen hfetch hwalk
  have hmem : z ∈ past (rowPlace true) (some (cutPlace true x))
      (backend.table.listing userId true) :=
    mem_past_of_fetch (hfetch ▸ (by simp : z ∈ page ++ [e, z]))
  exact (mem_past_some.mp hmem).2.le.trans (not_lt.mp (latestFirst_cutPlace_iff z))

/-- Rows beyond a cursor at the instant `t` that were updated at `t` have a larger id. -/
theorem latestLast_beyond_iff {i t : ℤ} {url : Url} :
    place false i t < rowPlace false url ↔
      t < url.updatedAt ∨ (url.updatedAt = t ∧ i < url.id) := by
  simp only [rowPlace, place, Bool.false_eq_true, if_false, Prod.Lex.toLex_lt_toLex]
  omega

/-- If none of the first rows beyond a cursor has a larger id, they were all updated later. -/
theorem updatedAt_of_ids_le {rows : List Url} {n : ℕ} {i t : ℤ}
    (hsorted : Listing (rowPlace false) rows)
    (hids : ∀ url ∈ (past (rowPlace false) (some (place false i t)) rows).take (n + 1), url.id ≤ i) :
    ∀ url ∈ past (rowPlace false) (some (place false i t)) rows, t < url.updatedAt := by
  have hsorted' := hsorted.past (some (place false i t))
  have hbeyond : ∀ url ∈ past (rowPlace false) (some (place false i t)) rows,
      t < url.updatedAt ∨ (url.updatedAt = t ∧ i < url.id) := fun url hurl =>
    latestLast_beyond_iff.mp (mem_past_some.mp hurl).2
  cases hpast : past (rowPlace false) (some (place false i t)) rows with
  | nil => simp
  | cons first rest =>
    rw [hpast] at hsorted' hids hbeyond
    have hfirst : t < first.updatedAt := by
      have hid := hids first (by simp)
      have hfirst := hbeyond first List.mem_cons_self
      omega
    intro url hurl
    rcases List.mem_cons.mp hurl with rfl | hrest
    · exact hfirst
    · have hlt := (List.pairwise_cons.mp hsorted').1 url hrest
      simp only [rowPlace, place, Bool.false_eq_true, if_false, Prod.Lex.toLex_lt_toLex] at hlt
      omega

/-- If the rows beyond a cursor at the whole millisecond `t` were all updated later, and the row
    left out has no larger id and is cut off to `t`, the walk comes back to it for ever. -/
theorem not_walk_of_stuck {rows : List Url} {n : ℕ} {i t : ℤ} {page : List Url} {e z : Url}
    (hsorted : Listing (rowPlace false) rows) (hids : (rows.map Url.id).Nodup)
    (hlater : ∀ url ∈ past (rowPlace false) (some (place false i t)) rows, t < url.updatedAt)
    (hlen : n < (past (rowPlace false) (some (place false i t)) rows).length)
    (hfetch : fetch (rowPlace false) Url.id (n + 1) (some (place false i t)) rows = page ++ [e, z])
    (ht : floorMillisecond z.updatedAt = t) {j : ℤ} (hj : z.id ≤ j) {received : List Url} :
    ¬ Walk (rowPlace false) Url.id (fun _ => cutPlace false) n rows (some (place false j t))
      received := by
  intro hwalk
  have hsub : ∀ j, past (rowPlace false) (some (place false i t)) rows ⊆
      past (rowPlace false) (some (place false j t)) rows := by
    intro j url hurl
    exact mem_past_some.mpr ⟨(mem_past_some.mp hurl).1,
      latestLast_beyond_iff.mpr (Or.inl (hlater url hurl))⟩
  generalize hcursor : some (place false j t) = cursor at hwalk
  -- by induction on the walk, whose cursors stay at `t`
  induction hwalk generalizing j with
  | last _ hlen' =>
    subst hcursor
    have hle := (hsorted.past_suffix_past (hsub j)).length_le
    omega
  | @more _ page' e' z' received' _ hfetch' _ ih =>
    subst hcursor
    obtain ⟨htake, hlt⟩ := fetch_spec hids hfetch
    obtain ⟨htake', hlt'⟩ := fetch_spec hids hfetch'
    have hz' : z' ∈ (past (rowPlace false) (some (place false j t)) rows).take (n + 1) :=
      (htake' z').mpr (Or.inr rfl)
    obtain ⟨hmem, hbeyond⟩ := mem_past_some.mp (List.mem_of_mem_take hz')
    rcases latestLast_beyond_iff.mp hbeyond with hz't | ⟨hz't, hjz'⟩
    · -- the row left out was updated later, so it is one of the same rows
      have hpast : z' ∈ past (rowPlace false) (some (place false i t)) rows :=
        mem_past_some.mpr ⟨hmem, latestLast_beyond_iff.mpr (Or.inl hz't)⟩
      have hsuffix := hsorted.past_suffix_past (hsub j)
      have hz'id : z'.id ≤ z.id := by
        rcases (htake z').mp (mem_take_of_suffix hsuffix (hsorted.past _).nodup hz' hpast)
          with hpage | rfl
        · exact (hlt z' hpage).le
        · exact le_rfl
      have hlater' := updatedAt_of_ids_le hsorted (n := n) (i := j) (t := t) fun url hurl => by
        rcases (htake' url).mp hurl with hpage | rfl
        · exact ((hlt' url hpage).le.trans hz'id).trans hj
        · exact hz'id.trans hj
      -- and the rows are the same, so it is the same row
      have hsub' : past (rowPlace false) (some (place false j t)) rows ⊆
          past (rowPlace false) (some (place false i t)) rows := fun url hurl =>
        mem_past_some.mpr ⟨(mem_past_some.mp hurl).1,
          latestLast_beyond_iff.mpr (Or.inl (hlater' url hurl))⟩
      have hsame := hsuffix.eq_of_length_le (hsorted.past_suffix_past hsub').length_le
      rw [fetch, ← hsame, ← fetch, hfetch] at hfetch'
      obtain ⟨-, htail⟩ := List.append_inj' hfetch' rfl
      obtain ⟨-, htail⟩ := List.cons.inj htail
      obtain ⟨rfl, -⟩ := List.cons.inj htail
      exact ih le_rfl (by rw [cutPlace, ht])
    · -- the row left out was updated at `t`, and has a larger id than the cursor
      refine ih (hj.trans hjz'.le) ?_
      rw [cutPlace, hz't, ← ht, floorMillisecond_eq_iff.mpr (dvd_floorMillisecond _)]

/-- The oldest first, the cursors of a walk that ends do not go back. -/
theorem advances_latestLast (userId : ℤ) (n : ℕ) :
    Advances (rowPlace false) Url.id (cutPlace false) n (backend.table.listing userId false) := by
  intro x page e z received hlen hfetch hwalk
  have hsorted := backend.table.listing_sorted userId false
  have hids := backend.table.listing_nodup_id userId false
  obtain ⟨htake, hlt⟩ := fetch_spec hids hfetch
  have hz : z ∈ past (rowPlace false) (some (cutPlace false x))
      (backend.table.listing userId false) := List.mem_of_mem_take ((htake z).mpr (Or.inr rfl))
  have hbeyond := latestLast_beyond_iff.mp (mem_past_some.mp hz).2
  have hle : floorMillisecond x.updatedAt ≤ floorMillisecond z.updatedAt :=
    le_floorMillisecond (dvd_floorMillisecond _) (by omega)
  by_contra hback
  have hcut : floorMillisecond z.updatedAt = floorMillisecond x.updatedAt ∧ z.id < x.id := by
    simp only [cutPlace, place, Bool.false_eq_true, if_false, Prod.Lex.toLex_le_toLex] at hback
    omega
  -- then the walk would be stuck at the cursor of `z`
  have hlater := updatedAt_of_ids_le hsorted (n := n) (i := x.id) fun url hurl => by
    rcases (htake url).mp hurl with hpage | rfl
    · exact ((hlt url hpage).trans hcut.2).le
    · exact hcut.2.le
  rw [cutPlace, hcut.1] at hwalk
  exact not_walk_of_stuck hsorted hids hlater hlen hfetch hcut.1 le_rfl hwalk

/-- The cursors of the rows left out are the next cursors. -/
theorem Backend.receivesEach_pageInfo_iff {clock : ℕ → Url → ℤ} {latestFirst : Bool} {userId : ℤ}
    {n : ℕ} (hn : 1 ≤ n ∧ n ≤ 50)
    (hadv : Advances (rowPlace latestFirst) Url.id (cutPlace latestFirst) n
      (backend.table.listing userId latestFirst)) :
    backend.ReceivesEach clock latestFirst userId n (pageInfoCursor latestFirst) ↔
      backend.table.listing userId latestFirst ≠ [] ∧
      (∀ url ∈ backend.table.listing userId latestFirst, backend.Converts url) ∧
      ContinuesPages (rowPlace latestFirst) Url.id (cutPlace latestFirst) n
        (backend.table.listing userId latestFirst) := by
  have hiff := walk_perm_iff hn.1 (backend.table.listing_sorted userId latestFirst)
    (backend.table.listing_nodup_id userId latestFirst) hadv
  rw [receivesEach_iff hn (backend.follows_pageInfoCursor latestFirst)]
  exact (and_congr_right fun _ => hiff).trans and_left_comm

/-- At the end of a page with the rows `page`, the cursor of the next row `x` lies between them:
    `x` has the largest id, and is cut off to an instant not before the page. -/
def CutOffBetween (page : List Url) (x : Url) : Prop :=
  (∀ url ∈ page, url.id < x.id ∧ url.updatedAt ≤ floorMillisecond x.updatedAt) ∧
    ¬ millisecond ∣ x.updatedAt

theorem latestLast_cutOffBetween_iff {page : List Url} {x : Url} :
    ((∀ row ∈ page, row.id < x.id ∧ rowPlace false row ≤ cutPlace false x) ∧
      cutPlace false x < rowPlace false x) ↔ CutOffBetween page x := by
  rw [CutOffBetween, latestLast_cutPlace_iff]
  refine and_congr_left fun _ => forall₂_congr fun row _ => and_congr_right fun hid => ?_
  simp only [rowPlace, cutPlace, place, Bool.false_eq_true, if_false, Prod.Lex.toLex_le_toLex]
  omega

/-- **When the cursor in the page info continues the listing.** One call, either way; and the walk,
    the newest first and the oldest first. -/
theorem pageInfoCursor_iff (backend : Backend) (clock : ℕ → Url → ℤ) (userId : ℤ) {n : ℕ}
    (hn : 1 ≤ n ∧ n ≤ 50) :
    (∀ latestFirst t t' cursor connection,
      backend.getByUserId t (pageRequest latestFirst userId n cursor) = .ret connection →
      connection.pageInfo.hasMore latestFirst = true →
        ∃ parsed page e z edge, parseCursor? cursor = .ret parsed ∧
          sortBy Url.id ((backend.table.beyond userId latestFirst parsed).take (n + 1)) =
            page ++ [e, z] ∧
          connection.edges.getLast? = some edge ∧ backend.EdgeOf e edge ∧
          (backend.ContinuesListing t' latestFirst userId n connection ↔
            backend.StartsAfter latestFirst userId n e z)) ∧
    (backend.ReceivesEach clock true userId n (pageInfoCursor true) ↔
      backend.table.listing userId true ≠ [] ∧
      (∀ url ∈ backend.table.listing userId true, backend.Converts url) ∧
      (backend.table.listing userId true).length ≤ n) ∧
    (backend.ReceivesEach clock false userId n (pageInfoCursor false) ↔
      backend.table.listing userId false ≠ [] ∧
      (∀ url ∈ backend.table.listing userId false, backend.Converts url) ∧
      ∀ page x, PageBoundary n (backend.table.listing userId false) page x →
        CutOffBetween page x) := by
  refine ⟨?_, ?_, ?_⟩
  · intro latestFirst t t' cursor connection hcall hmore
    obtain ⟨parsed, page, e, z, edge, hcursor, hfetched, hinfo, hlast, hedge⟩ :=
      Backend.reply_more hn hcall hmore
    have hmem : ∀ url ∈ page ++ [e, z], url ∈ backend.table.rows := fun url hurl =>
      Backend.mem_rows_of_fetched (hfetched ▸ hurl)
    exact ⟨parsed, page, e, z, edge, hcursor, hfetched, hlast, hedge,
      Backend.continuesListing_iff t' hn (hmem e (by simp)) (hmem z (by simp)) hinfo hlast hedge⟩
  · rw [Backend.receivesEach_pageInfo_iff hn (advances_latestFirst userId n),
      ← forall_not_pageBoundary_iff]
    refine and_congr_right fun _ => and_congr_right fun _ => forall₂_congr fun page x => ?_
    exact forall_congr' fun _ => iff_false_intro fun h => latestFirst_cutPlace_iff x h.2
  · rw [Backend.receivesEach_pageInfo_iff hn (advances_latestLast userId n)]
    exact and_congr_right fun _ => and_congr_right fun _ => forall₃_congr fun page x _ =>
      latestLast_cutOffBetween_iff

theorem pageInfoCursor_cutOff :
    cutOff.ReceivesEach (fun _ _ => newYear) true 7 2 (pageInfoCursor true) ∧
    cutOff.ReceivesEach (fun _ _ => newYear) false 7 1 (pageInfoCursor false) := by
  obtain ⟨-, hfirst, -⟩ := pageInfoCursor_iff cutOff (fun _ _ => newYear) 7 (n := 2) (by decide)
  obtain ⟨-, -, hlast⟩ := pageInfoCursor_iff cutOff (fun _ _ => newYear) 7 (n := 1) (by decide)
  rw [cutOff, listing_twoUrls_latestFirst (by decide)] at hfirst
  rw [cutOff, listing_twoUrls_latestLast (by decide)] at hlast
  constructor
  · refine hfirst.mpr ⟨List.cons_ne_nil _ _, ?_, le_rfl⟩
    simp [converts_firstUrl, converts_secondUrl]
  · refine hlast.mpr ⟨List.cons_ne_nil _ _, ?_, ?_⟩
    · simp [converts_firstUrl, converts_secondUrl]
    · intro page x hboundary
      obtain ⟨rfl, rfl⟩ := pageBoundary_pair.mp hboundary
      refine ⟨?_, by decide⟩
      intro url hurl
      obtain rfl := List.mem_singleton.mp hurl
      decide

/-- The newest first, one at a time: URL 1 comes first, and again on the next page, with the cursor
    of URL 2 after it. -/
theorem pageInfoCursor_loses :
    (∃ connection connection' edge edge', wholeMilliseconds.getByUserId (fun _ => newYear)
        (pageRequest true 7 (1 : ℕ) none) = .ret connection ∧
      connection.pageInfo.hasNextPage = true ∧ connection.edges = [edge] ∧
      wholeMilliseconds.EdgeOf (firstUrl newYear) edge ∧
      wholeMilliseconds.getByUserId (fun _ => newYear)
        (pageRequest true 7 (1 : ℕ) connection.pageInfo.startCursor) = .ret connection' ∧
      connection'.pageInfo.hasNextPage = false ∧ connection'.edges = [edge'] ∧
      wholeMilliseconds.EdgeOf (firstUrl newYear) edge') ∧
    ¬ wholeMilliseconds.ReceivesEach (fun _ _ => newYear) true 7 1 (pageInfoCursor true) := by
  have hlisting : wholeMilliseconds.table.listing 7 true =
      [secondUrl (newYear + millisecond), firstUrl newYear] := listing_twoUrls_latestFirst (by decide)
  constructor
  · have hconverts : wholeMilliseconds.Converts (firstUrl newYear) := converts_firstUrl
    obtain ⟨edge, hedge⟩ := Backend.edge_returns (fun _ => newYear) hconverts
    have hedgeOf := Backend.edgeOf_of_edge hedge
    have hfetched : wholeMilliseconds.table.fetched 7 true 2 none =
        [] ++ [firstUrl newYear, secondUrl (newYear + millisecond)] := by
      rw [UrlTable.fetched, fetch, Option.map_none, past_none, hlisting]
      exact sortBy_eq (by decide) (List.Perm.swap _ _ _)
    have hpage : ([] : List Url).length + 1 = 1 := rfl
    have hnone : parseCursor? none = .ret none := rfl
    have hmem : secondUrl (newYear + millisecond) ∈ wholeMilliseconds.table.rows := by
      exact List.mem_cons_of_mem _ List.mem_cons_self
    have hcursor : parseCursor? (some (createCursor 2 (newYear + millisecond))) =
        .ret (some (2, newYear + millisecond)) := by
      have hparse := Backend.parse_createCursor hmem
      rwa [floorMillisecond_eq_iff.mpr (by decide)] at hparse
    have hbeyond : wholeMilliseconds.table.beyond 7 true (some (2, newYear + millisecond)) =
        [firstUrl newYear] := by
      rw [UrlTable.beyond, hlisting]
      rfl
    refine ⟨Connection.serialize ⟨.more true (createCursor 2 (newYear + millisecond)), [edge]⟩,
      Connection.serialize ⟨.empty, [edge]⟩, edge.serialize, edge.serialize, ?_, rfl, rfl, hedgeOf, ?_,
      rfl, rfl, hedgeOf⟩
    · rw [getByUserId_more _ (by decide) hnone hfetched hpage, List.nil_append, List.mapM_cons, hedge]
      rfl
    · have hsort : sortBy Url.id [firstUrl newYear] = [firstUrl newYear] :=
        Listing.sortBy_eq_self (by decide)
      show wholeMilliseconds.getByUserId (fun _ => newYear) (pageRequest true 7 (1 : ℕ)
        (some (createCursor 2 (newYear + millisecond)))) = _
      rw [getByUserId_last _ (by decide) hcursor (by rw [hbeyond]; simp) (by rw [hbeyond]; simp),
        hbeyond, hsort, List.mapM_cons, hedge]
      rfl
  · rw [Backend.receivesEach_pageInfo_iff (by decide) (advances_latestFirst 7 1), hlisting]
    intro hall
    exact latestFirst_cutPlace_iff _ (hall.2.2 _ _ (pageBoundary_pair.mpr ⟨rfl, rfl⟩)).2

end Shortener.Urls
