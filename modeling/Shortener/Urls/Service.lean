import Shortener.Stats.Reader
import Shortener.Stats.Reply
import Shortener.Urls.Repository

/-!
# Pages of URLs

`UrlService.GetByUserId` (`Shortener.GrpcBackend/Services/UrlService.cs`, lines 156–235)
with `GetUrlsEdge`, `Pagination.cs` and `PaginationExtensions.cs`. One row more than the
page holds is fetched, and the cursor in the page info is the cursor of the last row, which
is left out of the page: the one with the largest id. Storing the page in the cache, which
the reply does not depend on, is left out.

* `getByUserId_empty`, `getByUserId_last`, `getByUserId_more`: the reply if there are no
  rows beyond the cursor, if they fit in the page, and if they do not.
-/

namespace Shortener.Urls

open Shortener.Common Shortener.DotNet Shortener.Codec Shortener.Stats

/-! ## Messages -/

/-- `PageInfo`. -/
structure PageInfo where
  hasNextPage : Bool
  hasPreviousPage : Bool
  startCursor : Option String
  endCursor : Option String

/-- `new PageInfo()`. -/
def PageInfo.empty : PageInfo := ⟨false, false, none, none⟩

/-- `Edge<T>`: a node with its cursor. -/
structure Edge (ν : Type) where
  cursor : String
  node : ν

/-- `Connection<T>`: a page. -/
structure Connection (ν : Type) where
  pageInfo : PageInfo
  edges : List (Edge ν)

/-- `PaginationExtensions.Serialize` of an edge. -/
def Edge.serialize (edge : Edge UrlStats) : Edge Grpc.UrlStats where
  cursor := edge.cursor
  node := edge.node.serialize

/-- `PaginationExtensions.Serialize` of a connection. -/
def Connection.serialize (connection : Connection UrlStats) : Connection Grpc.UrlStats where
  pageInfo := connection.pageInfo
  edges := connection.edges.map Edge.serialize

/-- `GetUrlsByUserIdRequest`. -/
structure GetUrlsByUserIdRequest where
  userId : ℤ
  first : Option ℤ
  after : Option String
  last : Option ℤ
  before : Option String

/-! ## The service -/

/-- `Constants.MaxUrlsPageSize`. -/
def maxUrlsPageSize : ℤ := 50

/-- `RpcExceptionUtils.NotFound(resourceName)`. -/
def notFound (resourceName : String) : Exn :=
  .rpc ⟨.notFound, s!"{resourceName} not found", .resourceInfo resourceName⟩

/-- `ParseCursor` of a cursor that may be absent. -/
def parseCursor? : Option String → Exec (Option (ℤ × ℤ))
  | none => .ret none
  | some cursor => some <$> parseCursor cursor

/-- The backend of a shard. The clock is read for each URL that is converted. -/
structure Backend where
  env : Globalization
  shardId : ℤ
  table : UrlTable

variable (backend : Backend)

/-- An edge of `GetUrlsEdge`. -/
def Backend.edge (clock : Url → ℤ) (url : Url) : Exec (Edge UrlStats) := do
  let node ← convert backend.env backend.shardId (clock url) url
  return { cursor := createCursor url.id url.updatedAt, node := node }

/-- `GetUrlsEdge` (lines 278–285). -/
def Backend.getUrlsEdge (clock : Url → ℤ) (urls : List Url) (pageSize : ℤ) :
    Exec (List (Edge UrlStats)) :=
  (urls.take pageSize.toNat).mapM (backend.edge clock)

/-- `CreateCursor(urls.Last().Id, urls.Last().UpdatedAt)`. -/
def lastCursor (urls : List Url) : Option String :=
  urls.getLast?.map fun url => createCursor url.id url.updatedAt

/-- `limit`, `cursor` and `latestFirst` (lines 159–185). -/
def GetUrlsByUserIdRequest.query (request : GetUrlsByUserIdRequest) :
    Exec (ℤ × Option (ℤ × ℤ) × Bool) :=
  match request.first, request.last with
  | some first, _ => do
    let cursor ← parseCursor? request.after
    return (toInt32 (first + 1), cursor, true)
  | none, some last => do
    let cursor ← parseCursor? request.before
    return (toInt32 (last + 1), cursor, false)
  | none, none => .ret (maxUrlsPageSize + 1, none, true)

/-- The page size and the page info (lines 197–224). -/
def GetUrlsByUserIdRequest.page (request : GetUrlsByUserIdRequest) (urls : List Url) :
    ℤ × PageInfo :=
  match request.first, request.last with
  | some first, _ =>
    (first,
      if urls.length > first then
        { PageInfo.empty with hasNextPage := true, startCursor := lastCursor urls }
      else .empty)
  | none, some last =>
    (last,
      if urls.length > last then
        { PageInfo.empty with hasPreviousPage := true, endCursor := lastCursor urls }
      else .empty)
  | none, none =>
    (maxUrlsPageSize,
      if urls.length > maxUrlsPageSize then
        { PageInfo.empty with hasNextPage := true, startCursor := lastCursor urls }
      else .empty)

/-- `GetByUserId`. -/
def Backend.getByUserId (clock : Url → ℤ) (request : GetUrlsByUserIdRequest) :
    Exec (Connection Grpc.UrlStats) := do
  let (limit, cursor, latestFirst) ← request.query
  match ← backend.table.getByUserId request.userId limit cursor latestFirst with
  | none => .throw (notFound "urls")
  | some urls =>
    let (pageSize, pageInfo) := request.page urls
    let edges ← backend.getUrlsEdge clock urls pageSize
    return (Connection.mk pageInfo edges).serialize

/-! ## Requests in one direction -/

/-- `First` and `After`, or `Last` and `Before`. -/
def pageRequest (latestFirst : Bool) (userId n : ℤ) (cursor : Option String) :
    GetUrlsByUserIdRequest :=
  if latestFirst then ⟨userId, some n, cursor, none, none⟩ else ⟨userId, none, none, some n, cursor⟩

/-- `HasNextPage` or `HasPreviousPage`. -/
def PageInfo.hasMore (latestFirst : Bool) (pageInfo : PageInfo) : Bool :=
  if latestFirst then pageInfo.hasNextPage else pageInfo.hasPreviousPage

/-- `StartCursor` or `EndCursor`. -/
def PageInfo.continuation (latestFirst : Bool) (pageInfo : PageInfo) : Option String :=
  if latestFirst then pageInfo.startCursor else pageInfo.endCursor

/-- The page info of a page with a successor. -/
def PageInfo.more (latestFirst : Bool) (cursor : String) : PageInfo :=
  if latestFirst then { PageInfo.empty with hasNextPage := true, startCursor := some cursor }
  else { PageInfo.empty with hasPreviousPage := true, endCursor := some cursor }

@[simp] theorem PageInfo.hasMore_empty (latestFirst : Bool) :
    PageInfo.empty.hasMore latestFirst = false := by
  cases latestFirst <;> rfl

@[simp] theorem PageInfo.hasMore_more (latestFirst : Bool) (cursor : String) :
    (PageInfo.more latestFirst cursor).hasMore latestFirst = true := by
  cases latestFirst <;> rfl

@[simp] theorem PageInfo.continuation_more (latestFirst : Bool) (cursor : String) :
    (PageInfo.more latestFirst cursor).continuation latestFirst = some cursor := by
  cases latestFirst <;> rfl

section

variable {latestFirst : Bool} {userId : ℤ} {n : ℕ} {cursor : Option String} {parsed : Option (ℤ × ℤ)}
  {clock : Url → ℤ}

theorem query_pageRequest (hn : 1 ≤ n ∧ n ≤ 50) (hcursor : parseCursor? cursor = .ret parsed) :
    (pageRequest latestFirst userId n cursor).query = .ret (↑n + 1, parsed, latestFirst) := by
  have hlimit : toInt32 (↑n + 1) = ↑n + 1 := toInt32_of_isInt32 ⟨by omega, by omega⟩
  cases latestFirst
  · show (parseCursor? cursor >>= fun cursor => Exec.ret (toInt32 (↑n + 1), cursor, false)) = _
    rw [hcursor, hlimit]
    rfl
  · show (parseCursor? cursor >>= fun cursor => Exec.ret (toInt32 (↑n + 1), cursor, true)) = _
    rw [hcursor, hlimit]
    rfl

theorem page_pageRequest (urls : List Url) :
    (pageRequest latestFirst userId n cursor).page urls =
      (↑n, if urls.length > n then
        (if latestFirst then
          { PageInfo.empty with hasNextPage := true, startCursor := lastCursor urls }
        else { PageInfo.empty with hasPreviousPage := true, endCursor := lastCursor urls })
      else .empty) := by
  cases latestFirst <;> simp [pageRequest, GetUrlsByUserIdRequest.page]

/-- The request up to the query. -/
theorem getByUserId_eq (hn : 1 ≤ n ∧ n ≤ 50) (hcursor : parseCursor? cursor = .ret parsed) :
    backend.getByUserId clock (pageRequest latestFirst userId n cursor) =
      let urls := backend.table.fetched userId latestFirst (n + 1) parsed
      if urls.isEmpty then .throw (notFound "urls")
      else do
        let (pageSize, pageInfo) := (pageRequest latestFirst userId n cursor).page urls
        let edges ← backend.getUrlsEdge clock urls pageSize
        return (Connection.mk pageInfo edges).serialize := by
  have huser : (pageRequest latestFirst userId n cursor).userId = userId := by
    cases latestFirst <;> rfl
  have hlimit : ((n : ℤ) + 1).toNat = n + 1 := by omega
  rw [Backend.getByUserId, query_pageRequest hn hcursor, Exec.ret_bind, huser]
  dsimp only
  rw [UrlTable.getByUserId_eq _ _ (by omega), hlimit, Exec.ret_bind]
  split_ifs <;> rfl

theorem getByUserId_empty (hn : 1 ≤ n ∧ n ≤ 50) (hcursor : parseCursor? cursor = .ret parsed)
    (hrows : backend.table.beyond userId latestFirst parsed = []) :
    backend.getByUserId clock (pageRequest latestFirst userId n cursor) =
      .throw (notFound "urls") := by
  rw [getByUserId_eq backend hn hcursor, (UrlTable.fetched_eq_nil_iff (Nat.succ_ne_zero n)).mpr hrows]
  rfl

/-- The rows fit in the page: they come in the order of their ids. -/
theorem fetched_last (hlen : (backend.table.beyond userId latestFirst parsed).length ≤ n) :
    backend.table.fetched userId latestFirst (n + 1) parsed =
      sortBy Url.id (backend.table.beyond userId latestFirst parsed) :=
  congrArg (sortBy Url.id) (List.take_of_length_le (Nat.le_succ_of_le hlen))

theorem getByUserId_last (hn : 1 ≤ n ∧ n ≤ 50) (hcursor : parseCursor? cursor = .ret parsed)
    (hne : backend.table.beyond userId latestFirst parsed ≠ [])
    (hlen : (backend.table.beyond userId latestFirst parsed).length ≤ n) :
    backend.getByUserId clock (pageRequest latestFirst userId n cursor) = do
      let edges ← (sortBy Url.id (backend.table.beyond userId latestFirst parsed)).mapM
        (backend.edge clock)
      return (Connection.mk .empty edges).serialize := by
  have hfetched : backend.table.fetched userId latestFirst (n + 1) parsed ≠ [] := fun hnil =>
    hne ((UrlTable.fetched_eq_nil_iff (Nat.succ_ne_zero n)).mp hnil)
  have hlen' : (sortBy Url.id (backend.table.beyond userId latestFirst parsed)).length ≤ n := by
    rwa [(sortBy_perm _ _).length_eq]
  rw [getByUserId_eq backend hn hcursor, fetched_last backend hlen] at *
  dsimp only
  rw [if_neg (by simpa using hfetched), page_pageRequest, if_neg (by omega)]
  dsimp only
  rw [Backend.getUrlsEdge, Int.toNat_natCast, List.take_of_length_le hlen']

theorem getByUserId_more (hn : 1 ≤ n ∧ n ≤ 50) (hcursor : parseCursor? cursor = .ret parsed)
    {page : List Url} {e z : Url}
    (hfetched : backend.table.fetched userId latestFirst (n + 1) parsed = page ++ [e, z])
    (hlen : page.length + 1 = n) :
    backend.getByUserId clock (pageRequest latestFirst userId n cursor) = do
      let edges ← (page ++ [e]).mapM (backend.edge clock)
      return (Connection.mk (.more latestFirst (createCursor z.id z.updatedAt)) edges).serialize := by
  have hpage : (page ++ [e, z]).take n = page ++ [e] := by
    rw [show page ++ [e, z] = (page ++ [e]) ++ [z] by simp]
    exact List.take_left' (by simp; omega)
  have hlast : lastCursor (page ++ [e, z]) = some (createCursor z.id z.updatedAt) := by
    simp [lastCursor]
  rw [getByUserId_eq backend hn hcursor, hfetched]
  dsimp only
  rw [if_neg (by simp), page_pageRequest, if_pos (by simp; omega), hlast]
  dsimp only
  rw [Backend.getUrlsEdge, Int.toNat_natCast, hpage]
  rfl

end

end Shortener.Urls
