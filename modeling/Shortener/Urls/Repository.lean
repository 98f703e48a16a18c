import Shortener.Codec.Cursor
import Shortener.Common.Keyset
import Shortener.Stats.Convert

/-!
# The table of URLs

`UrlRepository.GetByUserId` (`Shortener.GrpcBackend/Repositories/UrlRepository.cs`, lines
110–160). Its four queries are one query with two parameters: the direction and the
cursor. The rows come with their visits, which puts them in the order of their ids.

* `getByUserId_eq`: the query returns the first rows beyond the cursor of the user's
  listing, in the order of their ids.
-/

namespace Shortener.Urls

open Shortener.Common Shortener.DotNet Shortener.Codec Shortener.Stats

/-- The table `Url`, of which `Id` is the primary key. -/
structure UrlTable where
  rows : List Url
  nodup_id : (rows.map Url.id).Nodup
  isInt32_id : ∀ url ∈ rows, IsInt32 url.id
  isInstant_updatedAt : ∀ url ∈ rows, IsInstant url.updatedAt

/-! ## The query -/

/-- The condition on `UpdatedAt` and `Id` in the `WHERE` clause. -/
def IsPast (latestFirst : Bool) (cursor : ℤ × ℤ) (url : Url) : Prop :=
  match cursor with
  | (urlIdCursor, updatedAtCursor) =>
    if latestFirst then
      url.updatedAt < updatedAtCursor ∨ (url.updatedAt = updatedAtCursor ∧ url.id < urlIdCursor)
    else
      url.updatedAt > updatedAtCursor ∨ (url.updatedAt = updatedAtCursor ∧ url.id > urlIdCursor)

instance (latestFirst : Bool) (cursor : ℤ × ℤ) (url : Url) :
    Decidable (IsPast latestFirst cursor url) := by
  unfold IsPast
  infer_instance

/-- The `ORDER BY` clause: `a` may come before `b`. -/
def orderBy (latestFirst : Bool) (a b : Url) : Bool :=
  if latestFirst then
    a.updatedAt > b.updatedAt ∨ (a.updatedAt = b.updatedAt ∧ a.id ≥ b.id)
  else
    a.updatedAt < b.updatedAt ∨ (a.updatedAt = b.updatedAt ∧ a.id ≤ b.id)

/-- `Include` of the visits. EF Core makes the query a subquery and orders the rows outside by
    the key of the URL, so that the visits of a URL come together. -/
def includeVisits (urls : List Url) : List Url := sortBy Url.id urls

/-- `UrlRepository.GetByUserId`. -/
def UrlTable.getByUserId (table : UrlTable) (userId limit : ℤ) (cursor : Option (ℤ × ℤ))
    (latestFirst : Bool) : Exec (Option (List Url)) :=
  if limit < 0 then .throw (.postgres "2201W" "LIMIT must not be negative")
  else
    let rows := table.rows.filter fun url =>
      url.userId = userId ∧ ∀ c ∈ cursor, IsPast latestFirst c url
    let urls := includeVisits ((rows.mergeSort (orderBy latestFirst)).take limit.toNat)
    .ret (if urls.isEmpty then none else some urls)

/-! ## The listing of a user -/

/-- The place of a row in the listing, which is sorted by increasing places. -/
def place (latestFirst : Bool) (id updatedAt : ℤ) : ℤ ×ₗ ℤ :=
  if latestFirst then toLex (-updatedAt, -id) else toLex (updatedAt, id)

/-- The place of a row in the order of the query. -/
def rowPlace (latestFirst : Bool) (url : Url) : ℤ ×ₗ ℤ := place latestFirst url.id url.updatedAt

/-- The URLs of a user in the order of `UpdatedAt` and `Id`. -/
def UrlTable.listing (table : UrlTable) (userId : ℤ) (latestFirst : Bool) : List Url :=
  sortBy (rowPlace latestFirst) (table.rows.filter fun url => url.userId = userId)

theorem isPast_iff {latestFirst : Bool} {cursor : ℤ × ℤ} {url : Url} :
    IsPast latestFirst cursor url ↔
      place latestFirst cursor.1 cursor.2 < rowPlace latestFirst url := by
  obtain ⟨urlIdCursor, updatedAtCursor⟩ := cursor
  cases latestFirst
  · simp only [IsPast, rowPlace, place, Bool.false_eq_true, if_false, Prod.Lex.toLex_lt_toLex]
    omega
  · simp only [IsPast, rowPlace, place, if_true, Prod.Lex.toLex_lt_toLex]
    omega

theorem orderBy_eq (latestFirst : Bool) :
    orderBy latestFirst = fun a b => decide (rowPlace latestFirst a ≤ rowPlace latestFirst b) := by
  funext a b
  cases latestFirst
  · simp only [orderBy, rowPlace, place, Bool.false_eq_true, if_false, Prod.Lex.toLex_le_toLex]
  · simp only [orderBy, rowPlace, place, if_true, Prod.Lex.toLex_le_toLex]
    congr 1
    apply propext
    omega

theorem rowPlace_inj {latestFirst : Bool} {a b : Url}
    (h : rowPlace latestFirst a = rowPlace latestFirst b) : a.id = b.id := by
  cases latestFirst
  · exact (Prod.mk.inj (toLex.injective h)).2
  · exact neg_injective (Prod.mk.inj (toLex.injective h)).2

theorem UrlTable.nodup_rowPlace (table : UrlTable) (latestFirst : Bool) (userId : ℤ) :
    ((table.rows.filter fun url => url.userId = userId).map (rowPlace latestFirst)).Nodup := by
  have hids : ((table.rows.filter fun url => url.userId = userId).map Url.id).Nodup :=
    table.nodup_id.sublist (List.filter_sublist.map Url.id)
  rw [List.Nodup, List.pairwise_map] at hids ⊢
  exact hids.imp fun hne heq => hne (rowPlace_inj heq)

theorem UrlTable.listing_perm (table : UrlTable) (userId : ℤ) (latestFirst : Bool) :
    (table.listing userId latestFirst).Perm (table.rows.filter fun url => url.userId = userId) :=
  sortBy_perm _ _

theorem UrlTable.mem_rows_of_listing {table : UrlTable} {userId : ℤ} {latestFirst : Bool}
    {url : Url} (h : url ∈ table.listing userId latestFirst) : url ∈ table.rows :=
  List.mem_of_mem_filter ((table.listing_perm userId latestFirst).mem_iff.mp h)

theorem UrlTable.listing_sorted (table : UrlTable) (userId : ℤ) (latestFirst : Bool) :
    Listing (rowPlace latestFirst) (table.listing userId latestFirst) :=
  listing_sortBy (table.nodup_rowPlace latestFirst userId)

/-- The rows that a page with this cursor is taken from. -/
def UrlTable.beyond (table : UrlTable) (userId : ℤ) (latestFirst : Bool)
    (cursor : Option (ℤ × ℤ)) : List Url :=
  past (rowPlace latestFirst) (cursor.map fun c => place latestFirst c.1 c.2)
    (table.listing userId latestFirst)

/-- The first `limit` of them, in the order of their ids. -/
def UrlTable.fetched (table : UrlTable) (userId : ℤ) (latestFirst : Bool) (limit : ℕ)
    (cursor : Option (ℤ × ℤ)) : List Url :=
  fetch (rowPlace latestFirst) Url.id limit (cursor.map fun c => place latestFirst c.1 c.2)
    (table.listing userId latestFirst)

theorem UrlTable.listing_nodup_id (table : UrlTable) (userId : ℤ) (latestFirst : Bool) :
    ((table.listing userId latestFirst).map Url.id).Nodup := by
  rw [((table.listing_perm userId latestFirst).map Url.id).nodup_iff]
  exact table.nodup_id.sublist (List.filter_sublist.map Url.id)

theorem UrlTable.fetched_eq_nil_iff {table : UrlTable} {userId : ℤ} {latestFirst : Bool} {limit : ℕ}
    {cursor : Option (ℤ × ℤ)} (hlimit : limit ≠ 0) :
    table.fetched userId latestFirst limit cursor = [] ↔
      table.beyond userId latestFirst cursor = [] := by
  have hperm : (table.fetched userId latestFirst limit cursor).Perm
      ((table.beyond userId latestFirst cursor).take limit) := fetch_perm _ _ _ _ _
  constructor
  · intro h
    rw [h, List.nil_perm, List.take_eq_nil_iff] at hperm
    exact hperm.resolve_left hlimit
  · intro h
    rw [h, List.take_nil] at hperm
    exact List.perm_nil.mp hperm

theorem UrlTable.getByUserId_eq (table : UrlTable) (userId : ℤ) {limit : ℤ} (hlimit : 0 ≤ limit)
    (cursor : Option (ℤ × ℤ)) (latestFirst : Bool) :
    table.getByUserId userId limit cursor latestFirst =
      .ret (if (table.fetched userId latestFirst limit.toNat cursor).isEmpty then none
        else some (table.fetched userId latestFirst limit.toNat cursor)) := by
  have hrows : (table.rows.filter fun url =>
      decide (url.userId = userId ∧ ∀ c ∈ cursor, IsPast latestFirst c url)).mergeSort
        (orderBy latestFirst) = table.beyond userId latestFirst cursor := by
    rw [beyond, past, listing, ← sortBy_filter (table.nodup_rowPlace latestFirst userId),
      List.filter_filter, sortBy, orderBy_eq]
    congr 1
    apply List.filter_congr
    intro url _
    cases cursor <;> simp [isPast_iff, Bool.and_comm]
  rw [getByUserId, if_neg (not_lt.mpr hlimit)]
  simp only [hrows]
  rfl

end Shortener.Urls
