import Shortener.Urls.Repository

/-!
# Walking with exact cursors

`UrlRepository.GetByUserId` by itself, without the cursors of the service, which are cut off
to a millisecond: called again and again with the `Id` and the `UpdatedAt` of the last row it
has returned, until it returns null. The last row has the largest id of those returned, and
need not be the last one of them in the listing.

* `walk_eq`, `walk_sorted`: a walk gives the rows beyond its cursor in the order of the
  listing exactly if their ids ascend on each page.
* `keysetWalk_partitions_iff`: when it gives every row of the user once, sorted, in the two
  directions; the walks are then the reverse of each other.
-/

namespace Shortener.Urls

open Shortener.Common Shortener.DotNet Shortener.Stats

/-- The exact cursor of the last row. -/
def exactCursor (urls : List Url) : Option (ℤ × ℤ) :=
  urls.getLast?.map fun url => (url.id, url.updatedAt)

/-- The calls of `GetByUserId` up to the one that returns null, at most `fuel` of them. -/
def UrlTable.walk (table : UrlTable) (userId limit : ℤ) (latestFirst : Bool) :
    ℕ → Option (ℤ × ℤ) → Exec (List Url)
  | 0, _ => .diverge
  | fuel + 1, cursor => do
    match ← table.getByUserId userId limit cursor latestFirst with
    | none => return []
    | some urls =>
      let rest ← table.walk userId limit latestFirst fuel (exactCursor urls)
      return urls ++ rest

/-- `a` comes after `b` in the order of `UpdatedAt` and `Id`. -/
def Newer (a b : Url) : Prop :=
  a.updatedAt > b.updatedAt ∨ (a.updatedAt = b.updatedAt ∧ a.id > b.id)

/-- The rows of a user. -/
def UrlTable.ofUser (table : UrlTable) (userId : ℤ) : List Url :=
  table.rows.filter fun url => url.userId = userId

/-- The walk ends, and has given every row of the user once, sorted. -/
def UrlTable.Partitions (table : UrlTable) (userId limit : ℤ) (latestFirst : Bool) : Prop :=
  ∃ rows, (∃ calls, ∀ fuel ≥ calls, table.walk userId limit latestFirst fuel none = .ret rows) ∧
    rows.Perm (table.ofUser userId) ∧ rows.Nodup ∧
    rows.Pairwise fun a b => if latestFirst then Newer a b else Newer b a

section

variable {table : UrlTable} {userId limit : ℤ} {latestFirst : Bool} {cursor : Option (ℤ × ℤ)}

/-- The exact cursor of the last row of a page continues the listing behind it. -/
theorem beyond_exactCursor {b : Url} {n : ℕ}
    (hb : ((table.beyond userId latestFirst cursor).take n).getLast? = some b) :
    table.beyond userId latestFirst (some (b.id, b.updatedAt)) =
      (table.beyond userId latestFirst cursor).drop n :=
  (table.listing_sorted userId latestFirst).past_getLast hb

theorem walk_succ (hlimit : 1 ≤ limit) (fuel : ℕ) :
    table.walk userId limit latestFirst (fuel + 1) cursor =
      if table.beyond userId latestFirst cursor = [] then .ret []
      else do
        let rest ← table.walk userId limit latestFirst fuel
          (exactCursor (table.fetched userId latestFirst limit.toNat cursor))
        return table.fetched userId latestFirst limit.toNat cursor ++ rest := by
  have hn : limit.toNat ≠ 0 := by omega
  have hiff : table.fetched userId latestFirst limit.toNat cursor = [] ↔
      table.beyond userId latestFirst cursor = [] := UrlTable.fetched_eq_nil_iff hn
  rw [UrlTable.walk, UrlTable.getByUserId_eq table userId (by omega), Exec.ret_bind]
  by_cases hnil : table.beyond userId latestFirst cursor = []
  · rw [if_pos hnil, hiff.mpr hnil]
    rfl
  · rw [if_neg hnil, if_neg (by simpa [hiff] using hnil)]

/-- A page that is not empty has a last row. -/
theorem exists_lastRow (hlimit : 1 ≤ limit) (hne : table.beyond userId latestFirst cursor ≠ []) :
    ∃ b, ((table.beyond userId latestFirst cursor).take limit.toNat).getLast? = some b := by
  rw [← Option.ne_none_iff_exists', ne_eq, List.getLast?_eq_none_iff, List.take_eq_nil_iff]
  intro h
  have hzero := h.resolve_right hne
  omega

/-- A walk gives the rows beyond its cursor if their ids ascend on each page, after at most one
    call for each row and one more. -/
theorem walk_eq (hlimit : 1 ≤ limit) {fuel : ℕ}
    (hfuel : (table.beyond userId latestFirst cursor).length < fuel)
    (hsorted : PagesSorted Url.id limit.toNat (table.beyond userId latestFirst cursor)) :
    table.walk userId limit latestFirst fuel cursor =
      .ret (table.beyond userId latestFirst cursor) := by
  induction fuel generalizing cursor with
  | zero => omega
  | succ fuel ih =>
    rw [walk_succ hlimit]
    split_ifs with hnil
    · rw [hnil]
    · obtain ⟨hfirst, hlater⟩ := pagesSorted_iff.mp hsorted
      have hfetched : table.fetched userId latestFirst limit.toNat cursor =
          (table.beyond userId latestFirst cursor).take limit.toNat := hfirst.sortBy_eq_self
      obtain ⟨b, hb⟩ := exists_lastRow hlimit hnil
      have hbeyond := beyond_exactCursor hb
      have hpos : 0 < (table.beyond userId latestFirst cursor).length :=
        List.length_pos_of_ne_nil hnil
      have hrest : table.walk userId limit latestFirst fuel (some (b.id, b.updatedAt)) =
          .ret (table.beyond userId latestFirst (some (b.id, b.updatedAt))) := by
        apply ih
        · rw [hbeyond, List.length_drop]
          omega
        · rwa [hbeyond]
      rw [hfetched, exactCursor, hb, Option.map_some, hrest, hbeyond, Exec.ret_bind,
        List.take_append_drop]
      rfl

/-- If a walk gives the rows beyond its cursor, their ids ascend on each page. -/
theorem walk_sorted (hlimit : 1 ≤ limit) {fuel : ℕ}
    (h : table.walk userId limit latestFirst fuel cursor =
      .ret (table.beyond userId latestFirst cursor)) :
    PagesSorted Url.id limit.toNat (table.beyond userId latestFirst cursor) := by
  induction fuel generalizing cursor with
  | zero => cases h
  | succ fuel ih =>
    rw [walk_succ hlimit] at h
    split_ifs at h with hnil
    · rw [hnil]
      exact pagesSorted_nil
    · obtain ⟨rest, hwalk, h⟩ := Exec.bind_eq_ret_iff.mp h
      have hperm : (table.fetched userId latestFirst limit.toNat cursor).Perm
          ((table.beyond userId latestFirst cursor).take limit.toNat) := fetch_perm _ _ _ _ _
      have hsorted : Listing Url.id (table.fetched userId latestFirst limit.toNat cursor) :=
        listing_fetch (table.listing_nodup_id userId latestFirst) _ _
      -- the page comes first in the listing, too
      obtain ⟨hpage, hrest⟩ := List.append_inj
        ((Exec.ret.inj h).trans (List.take_append_drop limit.toNat _).symm) hperm.length_eq
      obtain ⟨b, hb⟩ := exists_lastRow hlimit hnil
      rw [hpage] at hsorted hwalk
      rw [exactCursor, hb, Option.map_some, hrest, ← beyond_exactCursor hb] at hwalk
      have hlater := ih hwalk
      rw [beyond_exactCursor hb] at hlater
      exact pagesSorted_iff.mpr ⟨hsorted, hlater⟩

theorem beyond_none : table.beyond userId latestFirst none = table.listing userId latestFirst :=
  past_none _ _

/-! ## Orders -/

theorem rowPlace_lt_iff {a b : Url} :
    rowPlace true a < rowPlace true b ↔ Newer a b := by
  simp only [rowPlace, place, if_true, Prod.Lex.toLex_lt_toLex, Newer]
  omega

theorem rowPlace_false_lt_iff {a b : Url} :
    rowPlace false a < rowPlace false b ↔ Newer b a := by
  simp only [rowPlace, place, Bool.false_eq_true, if_false, Prod.Lex.toLex_lt_toLex, Newer]
  omega

theorem listing_latestFirst (table : UrlTable) (userId : ℤ) :
    (table.listing userId true).Pairwise Newer :=
  (table.listing_sorted userId true).imp rowPlace_lt_iff.mp

theorem listing_latestLast (table : UrlTable) (userId : ℤ) :
    (table.listing userId false).Pairwise fun a b => Newer b a :=
  (table.listing_sorted userId false).imp rowPlace_false_lt_iff.mp

/-- The two listings are the same rows in opposite orders. -/
theorem listing_reverse (table : UrlTable) (userId : ℤ) :
    table.listing userId false = (table.listing userId true).reverse := by
  have hreverse : Listing (rowPlace false) (table.listing userId true).reverse := by
    rw [Listing, List.pairwise_reverse]
    exact (listing_latestFirst table userId).imp rowPlace_false_lt_iff.mpr
  refine (table.listing_sorted userId false).eq_of_perm hreverse ?_
  refine (table.listing_perm userId false).trans ?_
  exact (table.listing_perm userId true).symm.trans (List.reverse_perm _).symm

/-- Rows that are sorted like the listing are the listing. -/
theorem eq_listing {rows : List Url} (hperm : rows.Perm (table.ofUser userId))
    (hsorted : rows.Pairwise fun a b => if latestFirst then Newer a b else Newer b a) :
    rows = table.listing userId latestFirst := by
  have hlisting : Listing (rowPlace latestFirst) rows := by
    cases latestFirst
    · exact hsorted.imp fun h => rowPlace_false_lt_iff.mpr (by simpa using h)
    · exact hsorted.imp fun h => rowPlace_lt_iff.mpr (by simpa using h)
  exact hlisting.eq_of_perm (table.listing_sorted userId latestFirst)
    (hperm.trans (table.listing_perm userId latestFirst).symm)

theorem UrlTable.Partitions.eq_listing (h : table.Partitions userId limit latestFirst) :
    ∃ calls, ∀ fuel ≥ calls,
      table.walk userId limit latestFirst fuel none = .ret (table.listing userId latestFirst) := by
  obtain ⟨rows, hwalk, hperm, -, hsorted⟩ := h
  rwa [← Urls.eq_listing hperm hsorted]

theorem partitions_iff (hlimit : 1 ≤ limit) :
    table.Partitions userId limit latestFirst ↔
      PagesSorted Url.id limit.toNat (table.listing userId latestFirst) := by
  constructor
  · intro h
    obtain ⟨calls, hcalls⟩ := h.eq_listing
    have hwalk := hcalls calls le_rfl
    rw [← beyond_none] at hwalk ⊢
    exact walk_sorted hlimit hwalk
  · intro h
    refine ⟨table.listing userId latestFirst, ⟨(table.listing userId latestFirst).length + 1, ?_⟩,
      table.listing_perm userId latestFirst, (table.listing_sorted userId latestFirst).nodup, ?_⟩
    · intro fuel hfuel
      rw [← beyond_none] at h hfuel ⊢
      exact walk_eq hlimit hfuel h
    · cases latestFirst
      · simpa using listing_latestLast table userId
      · simpa using listing_latestFirst table userId

/-- A walk that returns gives the same rows with more calls. -/
theorem walk_mono (hlimit : 1 ≤ limit) {fuel fuel' : ℕ} {rows : List Url}
    (h : table.walk userId limit latestFirst fuel cursor = .ret rows) (hle : fuel ≤ fuel') :
    table.walk userId limit latestFirst fuel' cursor = .ret rows := by
  induction fuel generalizing cursor rows fuel' with
  | zero => cases h
  | succ fuel ih =>
    obtain ⟨fuel', rfl⟩ := Nat.exists_eq_add_of_le' (Nat.one_le_of_lt hle)
    rw [walk_succ hlimit] at h ⊢
    split_ifs at h ⊢ with hnil
    · exact h
    · obtain ⟨rest, hwalk, h⟩ := Exec.bind_eq_ret_iff.mp h
      exact Exec.bind_eq_ret_iff.mpr ⟨rest, ih hwalk (by omega), h⟩

/-! ## Main theorem -/

/-- Both walks partition the list, and they are the reverse of each other. -/
def UrlTable.PartitionsBothWays (table : UrlTable) (userId limit limit' : ℤ) : Prop :=
  table.Partitions userId limit true ∧ table.Partitions userId limit' false ∧
    ∀ fuel fuel' rows rows', table.walk userId limit true fuel none = .ret rows →
      table.walk userId limit' false fuel' none = .ret rows' → rows' = rows.reverse

/-- **When the keyset query partitions the list.** Exactly if the ids ascend on each page. -/
theorem keysetWalk_partitions_iff (table : UrlTable) (userId : ℤ) (hlimit : 1 ≤ limit)
    {limit' : ℤ} (hlimit' : 1 ≤ limit') :
    (∀ latestFirst, table.Partitions userId limit latestFirst ↔
      PagesSorted Url.id limit.toNat (table.listing userId latestFirst)) ∧
    (table.PartitionsBothWays userId limit limit' ↔
      PagesSorted Url.id limit.toNat (table.listing userId true) ∧
      PagesSorted Url.id limit'.toNat (table.listing userId false)) := by
  refine ⟨fun _ => partitions_iff hlimit, ?_⟩
  rw [← partitions_iff hlimit, ← partitions_iff hlimit']
  constructor
  · intro ⟨hfirst, hlast, _⟩
    exact ⟨hfirst, hlast⟩
  · intro ⟨hfirst, hlast⟩
    refine ⟨hfirst, hlast, ?_⟩
    intro fuel fuel' rows rows' h h'
    obtain ⟨calls, hcalls⟩ := hfirst.eq_listing
    obtain ⟨calls', hcalls'⟩ := hlast.eq_listing
    have hrows := (walk_mono hlimit h (le_max_left fuel calls)).symm.trans
      (hcalls _ (le_max_right fuel calls))
    have hrows' := (walk_mono hlimit' h' (le_max_left fuel' calls')).symm.trans
      (hcalls' _ (le_max_right fuel' calls'))
    rw [Exec.ret.inj hrows, Exec.ret.inj hrows', listing_reverse table userId]

end

/-- Three URLs of user 7: URL 1 is the newest, URL 2 the oldest. -/
def threeUrls : UrlTable where
  rows := [⟨1, "https://example.com/1", 7, 0, [], 3000⟩, ⟨2, "https://example.com/2", 7, 0, [], 1000⟩,
    ⟨3, "https://example.com/3", 7, 0, [], 2000⟩]
  nodup_id := by decide
  isInt32_id := by
    intro url hurl
    fin_cases hurl <;> decide
  isInstant_updatedAt := by
    intro url hurl
    fin_cases hurl <;> decide

/-- Two at a time, both ways. -/
theorem keysetWalk_partitions_threeUrls : threeUrls.PartitionsBothWays 7 2 2 := by
  have hfirst : threeUrls.listing 7 true = [⟨1, "https://example.com/1", 7, 0, [], 3000⟩,
      ⟨3, "https://example.com/3", 7, 0, [], 2000⟩, ⟨2, "https://example.com/2", 7, 0, [], 1000⟩] := by
    refine sortBy_eq (by decide) ?_
    exact List.Perm.cons _ (List.Perm.swap _ _ _)
  have hlast := listing_reverse threeUrls 7
  rw [hfirst] at hlast
  refine (keysetWalk_partitions_iff threeUrls 7 (by decide) (by decide)).2.mpr ?_
  rw [hfirst, hlast]
  constructor
  · exact pagesSorted_iff.mpr ⟨by decide, pagesSorted_iff.mpr ⟨by decide, pagesSorted_nil⟩⟩
  · exact pagesSorted_iff.mpr ⟨by decide, pagesSorted_iff.mpr ⟨by decide, pagesSorted_nil⟩⟩

/-- Two URLs of user 7, of which URL 2 is the newer one. -/
def twoRows : UrlTable where
  rows := [⟨1, "https://example.com/1", 7, 0, [], 1000⟩, ⟨2, "https://example.com/2", 7, 0, [], 2000⟩]
  nodup_id := by decide
  isInt32_id := by
    intro url hurl
    fin_cases hurl <;> decide
  isInstant_updatedAt := by
    intro url hurl
    fin_cases hurl <;> decide

theorem listing_twoRows :
    twoRows.listing 7 true = [⟨2, "https://example.com/2", 7, 0, [], 2000⟩,
      ⟨1, "https://example.com/1", 7, 0, [], 1000⟩] :=
  sortBy_eq (by decide) (List.Perm.swap _ _ _)

/-- Two at a time, the newest first: the older URL comes first, and once more. -/
theorem keysetWalk_repeats :
    twoRows.walk 7 2 true 3 none = .ret
      [⟨1, "https://example.com/1", 7, 0, [], 1000⟩, ⟨2, "https://example.com/2", 7, 0, [], 2000⟩,
        ⟨1, "https://example.com/1", 7, 0, [], 1000⟩] ∧
    ¬ twoRows.Partitions 7 2 true := by
  constructor
  · have hfetched : twoRows.fetched 7 true 2 none =
        [⟨1, "https://example.com/1", 7, 0, [], 1000⟩,
          ⟨2, "https://example.com/2", 7, 0, [], 2000⟩] := by
      rw [UrlTable.fetched, fetch, listing_twoRows]
      exact sortBy_eq (by decide) (List.Perm.swap _ _ _)
    have hbeyond : twoRows.beyond 7 true (some (2, 2000)) =
        [⟨1, "https://example.com/1", 7, 0, [], 1000⟩] := by
      rw [UrlTable.beyond, listing_twoRows]
      rfl
    have hfetched' : twoRows.fetched 7 true 2 (some (2, 2000)) =
        [⟨1, "https://example.com/1", 7, 0, [], 1000⟩] := by
      rw [UrlTable.fetched, fetch, listing_twoRows]
      exact sortBy_eq (by decide) (List.Perm.refl _)
    have hbeyond' : twoRows.beyond 7 true (some (1, 1000)) = [] := by
      rw [UrlTable.beyond, listing_twoRows]
      rfl
    have hlimit : (1 : ℤ) ≤ 2 := by decide
    have htoNat : (2 : ℤ).toNat = 2 := rfl
    have hlast : twoRows.walk 7 2 true 1 (some (1, 1000)) = .ret [] := by
      rw [walk_succ hlimit, if_pos hbeyond']
    have hnext : twoRows.walk 7 2 true 2 (some (2, 2000)) =
        .ret [⟨1, "https://example.com/1", 7, 0, [], 1000⟩] := by
      rw [walk_succ hlimit, if_neg (by rw [hbeyond]; simp), htoNat, hfetched', exactCursor,
        List.getLast?_singleton, Option.map_some, hlast]
      rfl
    rw [walk_succ hlimit, if_neg (by rw [beyond_none, listing_twoRows]; simp), htoNat, hfetched,
      exactCursor, List.getLast?_cons_cons, List.getLast?_singleton, Option.map_some, hnext]
    rfl
  · rw [partitions_iff (by decide), listing_twoRows, pagesSorted_iff]
    intro h
    exact absurd h.1 (by decide)

end Shortener.Urls
