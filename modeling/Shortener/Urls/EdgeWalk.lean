import Shortener.Urls.PageWalk

/-!
# Walking by the cursors of the edges

The next cursor is that of the last edge received. A page comes in the order of its ids, while
the listing is sorted by `UpdatedAt`; and a cursor is cut off to a millisecond, while
`UpdatedAt` has microseconds and the query compares all of it.

* `edgeWalk_iff`: when the walk receives every URL once, in order.
* `edgeWalk_loses`: two URLs are enough for it not to.
-/

namespace Shortener.Urls

open Shortener.Common Shortener.DotNet Shortener.Codec Shortener.Stats

/-- The cursor of the last edge received. -/
def lastEdgeCursor (connection : Connection Grpc.UrlStats) : Option String :=
  connection.edges.getLast?.map Edge.cursor

theorem Backend.follows_lastEdgeCursor (backend : Backend) (latestFirst : Bool) :
    backend.Follows latestFirst lastEdgeCursor fun b _ => b where
  choose_eq := fun _ _ => .inl rfl
  next_eq := by
    intro page b x connection _ hedges
    obtain ⟨edge, hlast, hedge⟩ := lastEdge_of_append hedges
    rw [lastEdgeCursor, hlast]
    exact congrArg some hedge.cursor

theorem latestFirst_edge_iff {b x : Url} (h : b.id < x.id) :
    (rowPlace true b ≤ nextPlace true (fun b _ => b) b x ∧
      nextPlace true (fun b _ => b) b x < rowPlace true x) ↔
      x.updatedAt < floorMillisecond b.updatedAt := by
  have hfloor := floorMillisecond_le b.updatedAt
  simp only [rowPlace, nextPlace, cutPlace, place, if_true, Prod.Lex.toLex_le_toLex,
    Prod.Lex.toLex_lt_toLex]
  omega

theorem latestLast_edge_iff {b x : Url} (h : rowPlace false b < rowPlace false x) :
    (rowPlace false b ≤ nextPlace false (fun b _ => b) b x ∧
      nextPlace false (fun b _ => b) b x < rowPlace false x) ↔ millisecond ∣ b.updatedAt := by
  have hfloor := floorMillisecond_le b.updatedAt
  rw [← floorMillisecond_eq_iff]
  simp only [rowPlace, nextPlace, cutPlace, place, Bool.false_eq_true, if_false,
    Prod.Lex.toLex_le_toLex, Prod.Lex.toLex_lt_toLex] at h ⊢
  omega

/-- **When walking by edge cursors receives every URL once, in order.** -/
theorem edgeWalk_iff (backend : Backend) (clock : ℕ → Url → ℤ) (userId : ℤ) {n : ℕ}
    (hn : 1 ≤ n ∧ n ≤ 50) :
    (backend.ReceivesAll clock true userId n lastEdgeCursor ↔
      backend.table.listing userId true ≠ [] ∧
      (∀ url ∈ backend.table.listing userId true, backend.Converts url) ∧
      Listing Url.id (backend.table.listing userId true) ∧
      ∀ page b x, PageBoundary n (backend.table.listing userId true) (page ++ [b]) x →
        x.updatedAt < floorMillisecond b.updatedAt) ∧
    (backend.ReceivesAll clock false userId n lastEdgeCursor ↔
      backend.table.listing userId false ≠ [] ∧
      (∀ url ∈ backend.table.listing userId false, backend.Converts url) ∧
      Listing Url.id (backend.table.listing userId false) ∧
      ∀ page b x, PageBoundary n (backend.table.listing userId false) (page ++ [b]) x →
        millisecond ∣ b.updatedAt) := by
  constructor
  · rw [Backend.receivesAll_iff hn (backend.follows_lastEdgeCursor true)]
    refine and_congr_right fun _ => and_congr_right fun _ => and_congr_right fun hids => ?_
    exact forall₃_congr fun page b x => forall_congr' fun hboundary =>
      latestFirst_edge_iff (hids.lt_of_pageBoundary hboundary b (by simp))
  · rw [Backend.receivesAll_iff hn (backend.follows_lastEdgeCursor false)]
    have hsorted := backend.table.listing_sorted userId false
    refine and_congr_right fun _ => and_congr_right fun _ => and_congr_right fun _ => ?_
    exact forall₃_congr fun page b x => forall_congr' fun hboundary =>
      latestLast_edge_iff (hsorted.lt_of_pageBoundary hboundary b (by simp))

/-! ## Two URLs -/

/-- The first URL of user 7. -/
def firstUrl (t : ℤ) : Url := ⟨1, "https://example.com/1", 7, 0, [], t⟩

/-- The second URL of user 7. -/
def secondUrl (t : ℤ) : Url := ⟨2, "https://example.com/2", 7, 0, [], t⟩

/-- A shard with two URLs of user 7, which were never visited. -/
def twoUrls (t t' : ℤ) (h : IsInstant t) (h' : IsInstant t') : Backend where
  env := .invariantMode
  shardId := 0
  table :=
    { rows := [firstUrl t, secondUrl t']
      nodup_id := by simp [firstUrl, secondUrl]
      isInt32_id := by simp [firstUrl, secondUrl, IsInt32]
      isInstant_updatedAt := by
        simp only [List.forall_mem_cons, List.not_mem_nil, false_imp_iff, implies_true, and_true]
        exact ⟨h, h'⟩ }

theorem pageBoundary_pair {α : Type} {u v x : α} {page : List α} :
    PageBoundary 1 [u, v] page x ↔ page = [u] ∧ x = v := by
  have hiff : (∀ page' x', PageBoundary 1 ([u] ++ v :: []) page' x' → page' = [u] ∧ x' = v) ↔ _ :=
    forall_pageBoundary_iff rfl
  constructor
  · intro hboundary
    refine hiff.mpr ⟨⟨rfl, rfl⟩, fun page' x' hlast => ?_⟩ page x hboundary
    exact absurd hlast (forall_not_pageBoundary_iff.mpr le_rfl page' x')
  · rintro ⟨rfl, rfl⟩
    have hfirst : PageBoundary 1 ([u] ++ x :: []) [u] x := pageBoundary_first rfl
    exact hfirst

section

variable {t t' : ℤ} {h : IsInstant t} {h' : IsInstant t'}

theorem listing_twoUrls_latestFirst (hlt : t < t') :
    (twoUrls t t' h h').table.listing 7 true = [secondUrl t', firstUrl t] := by
  refine sortBy_eq (List.pairwise_pair.mpr ?_) (List.Perm.swap _ _ _)
  simp only [rowPlace, place, if_true, Prod.Lex.toLex_lt_toLex, firstUrl, secondUrl]
  omega

theorem listing_twoUrls_latestLast (hlt : t < t') :
    (twoUrls t t' h h').table.listing 7 false = [firstUrl t, secondUrl t'] := by
  refine sortBy_eq (List.pairwise_pair.mpr ?_) (List.Perm.refl _)
  simp only [rowPlace, place, Bool.false_eq_true, if_false, Prod.Lex.toLex_lt_toLex, firstUrl,
    secondUrl]
  omega

/-- URL 1 is the newer one. -/
theorem listing_twoUrls_updated (hlt : t' < t) :
    (twoUrls t t' h h').table.listing 7 true = [firstUrl t, secondUrl t'] := by
  refine sortBy_eq (List.pairwise_pair.mpr ?_) (List.Perm.refl _)
  simp only [rowPlace, place, if_true, Prod.Lex.toLex_lt_toLex, firstUrl, secondUrl]
  omega

theorem converts_firstUrl : (twoUrls t t' h h').Converts (firstUrl t) :=
  (convert_returns_iff_rows _ _ _ _).mpr
    ⟨by show (ShortId.toString ⟨0, 1⟩).Returns; decide +kernel, by simp [firstUrl]⟩

theorem converts_secondUrl : (twoUrls t t' h h').Converts (secondUrl t') :=
  (convert_returns_iff_rows _ _ _ _).mpr
    ⟨by show (ShortId.toString ⟨0, 2⟩).Returns; decide +kernel, by simp [secondUrl]⟩

end

/-- 2024-01-01T00:00:00Z. -/
def newYear : ℤ := 1704067200 * 10 ^ 9

/-- Two URLs, a millisecond apart. -/
def wholeMilliseconds : Backend :=
  twoUrls newYear (newYear + millisecond) (by decide) (by decide)

/-- Two URLs, of which the first was updated a millisecond after the second. -/
def updatedLater : Backend :=
  twoUrls (newYear + millisecond) newYear (by decide) (by decide)

/-- Two URLs in one millisecond. -/
def sameMillisecond : Backend :=
  twoUrls (newYear + 400000) (newYear + 900000) (by decide) (by decide)

/-- Two URLs in two milliseconds, of which the second is cut off to an instant after the first. -/
def cutOff : Backend :=
  twoUrls (newYear + 400000) (newYear + 1500000) (by decide) (by decide)

theorem edgeWalk_twoUrls :
    updatedLater.ReceivesAll (fun _ _ => newYear) true 7 1 lastEdgeCursor ∧
    wholeMilliseconds.ReceivesAll (fun _ _ => newYear) false 7 1 lastEdgeCursor := by
  obtain ⟨hfirst, -⟩ := edgeWalk_iff updatedLater (fun _ _ => newYear) 7 (n := 1) (by decide)
  obtain ⟨-, hlast⟩ := edgeWalk_iff wholeMilliseconds (fun _ _ => newYear) 7 (n := 1) (by decide)
  rw [updatedLater, listing_twoUrls_updated (by decide)] at hfirst
  rw [wholeMilliseconds, listing_twoUrls_latestLast (by decide)] at hlast
  constructor
  · refine hfirst.mpr ⟨List.cons_ne_nil _ _, ?_, by decide, ?_⟩
    · simp [converts_firstUrl, converts_secondUrl]
    · intro page b x hboundary
      obtain ⟨hpage, rfl⟩ := pageBoundary_pair.mp hboundary
      obtain rfl : b = firstUrl (newYear + millisecond) := by simpa using congrArg List.getLast? hpage
      decide
  · refine hlast.mpr ⟨List.cons_ne_nil _ _, ?_, by decide, ?_⟩
    · simp [converts_firstUrl, converts_secondUrl]
    · intro page b x hboundary
      obtain ⟨hpage, rfl⟩ := pageBoundary_pair.mp hboundary
      obtain rfl : b = firstUrl newYear := by simpa using congrArg List.getLast? hpage
      decide

/-- The newest first, one at a time: the older URL comes first, and nothing after it. The oldest
    first, in one millisecond, a URL comes again and again. -/
theorem edgeWalk_loses :
    (∃ connection edge, wholeMilliseconds.getByUserId (fun _ => newYear)
        (pageRequest true 7 (1 : ℕ) none) = .ret connection ∧
      connection.pageInfo.hasNextPage = true ∧ connection.edges = [edge] ∧
      wholeMilliseconds.EdgeOf (firstUrl newYear) edge ∧
      wholeMilliseconds.getByUserId (fun _ => newYear)
        (pageRequest true 7 (1 : ℕ) (lastEdgeCursor connection)) = .throw (notFound "urls")) ∧
    ¬ wholeMilliseconds.ReceivesAll (fun _ _ => newYear) true 7 1 lastEdgeCursor ∧
    ¬ sameMillisecond.ReceivesAll (fun _ _ => newYear) false 7 1 lastEdgeCursor := by
  have hlisting : wholeMilliseconds.table.listing 7 true =
      [secondUrl (newYear + millisecond), firstUrl newYear] := listing_twoUrls_latestFirst (by decide)
  refine ⟨?_, ?_, ?_⟩
  · have hfetched : wholeMilliseconds.table.fetched 7 true 2 none =
        [] ++ [firstUrl newYear, secondUrl (newYear + millisecond)] := by
      rw [UrlTable.fetched, fetch, Option.map_none, past_none, hlisting]
      exact sortBy_eq (by decide) (List.Perm.swap _ _ _)
    have hconverts : wholeMilliseconds.Converts (firstUrl newYear) := converts_firstUrl
    obtain ⟨edge, hedge⟩ := Backend.edge_returns (fun _ => newYear) hconverts
    have hpage : ([] : List Url).length + 1 = 1 := rfl
    have hnone : parseCursor? none = .ret none := rfl
    have hmem : firstUrl newYear ∈ wholeMilliseconds.table.rows := List.mem_cons_self
    have hedgeOf := Backend.edgeOf_of_edge hedge
    refine ⟨Connection.serialize ⟨.more true (createCursor 2 (newYear + millisecond)), [edge]⟩,
      edge.serialize, ?_, rfl, rfl, hedgeOf, ?_⟩
    · rw [getByUserId_more _ (by decide) hnone hfetched hpage, List.nil_append, List.mapM_cons, hedge]
      rfl
    · have hcursor : parseCursor? (lastEdgeCursor (Connection.serialize ⟨.more true
          (createCursor 2 (newYear + millisecond)), [edge]⟩)) = .ret (some (1, newYear)) := by
        show parseCursor? (some edge.serialize.cursor) = _
        rw [hedgeOf.cursor, Backend.parse_createCursor hmem]
        rfl
      refine getByUserId_empty _ (by decide) hcursor ?_
      rw [UrlTable.beyond, hlisting]
      exact List.filter_eq_nil_iff.mpr (by decide)
  · rw [Backend.receivesAll_iff (by decide) (Backend.follows_lastEdgeCursor _ true), hlisting]
    intro hall
    exact absurd hall.2.2.1 (by decide)
  · rw [Backend.receivesAll_iff (by decide) (Backend.follows_lastEdgeCursor _ false),
      sameMillisecond, listing_twoUrls_latestLast (by decide)]
    intro hall
    have hbetween := hall.2.2.2 [] _ _ (pageBoundary_pair.mpr ⟨rfl, rfl⟩)
    have hplaces : rowPlace false (firstUrl (newYear + 400000)) <
        rowPlace false (secondUrl (newYear + 900000)) := by decide
    rw [latestLast_edge_iff hplaces] at hbetween
    exact absurd hbetween (by decide)

end Shortener.Urls
