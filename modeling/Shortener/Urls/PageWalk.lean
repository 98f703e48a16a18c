import Shortener.Urls.Service

/-!
# Walking the pages

A client that wants all URLs of a user calls `GetByUserId` again and again, each time with
a cursor from the last reply, until there is no further page.

* `Backend.reply_cases`, `Backend.reply_returns`: what a reply holds, and when there is one.
* `Backend.walk_sound`, `Backend.walk_complete`: the walks of the service are the walks of
  the user's listing.
* `Backend.receivesAll_iff`, `Backend.receivesEach_iff`: when a walk receives every URL once,
  in the order of the listing or in any order.
-/

namespace Shortener.Urls

open Shortener.Common Shortener.DotNet Shortener.Codec Shortener.Stats

/-! ## Walks -/

/-- The calls from number `call` on, of which call number `k` reads the clock `clock k`.
    `next` takes the next cursor from a reply. -/
def Backend.walk (backend : Backend) (clock : ℕ → Url → ℤ) (latestFirst : Bool) (userId : ℤ)
    (n : ℕ) (next : Connection Grpc.UrlStats → Option String) :
    ℕ → ℕ → Option String → Exec (List (Edge Grpc.UrlStats))
  | 0, _, _ => .diverge
  | fuel + 1, call, cursor => do
    let connection ← backend.getByUserId (clock call) (pageRequest latestFirst userId n cursor)
    if connection.pageInfo.hasMore latestFirst then
      let edges ← backend.walk clock latestFirst userId n next fuel (call + 1) (next connection)
      return connection.edges ++ edges
    else return connection.edges

/-- The edge of a URL. -/
structure Backend.EdgeOf (backend : Backend) (url : Url) (edge : Edge Grpc.UrlStats) : Prop where
  cursor : edge.cursor = createCursor url.id url.updatedAt
  node : ∃ now stats, convert backend.env backend.shardId now url = .ret stats ∧
    edge.node = stats.serialize

/-- The walk ends and has received the edge of every URL of the user once, in order. -/
def Backend.ReceivesAll (backend : Backend) (clock : ℕ → Url → ℤ) (latestFirst : Bool)
    (userId : ℤ) (n : ℕ) (next : Connection Grpc.UrlStats → Option String) : Prop :=
  ∃ fuel edges, backend.walk clock latestFirst userId n next fuel 0 none = .ret edges ∧
    List.Forall₂ backend.EdgeOf (backend.table.listing userId latestFirst) edges

/-- The walk ends and has received the edge of every URL of the user once, in any order. -/
def Backend.ReceivesEach (backend : Backend) (clock : ℕ → Url → ℤ) (latestFirst : Bool)
    (userId : ℤ) (n : ℕ) (next : Connection Grpc.UrlStats → Option String) : Prop :=
  ∃ fuel edges urls, backend.walk clock latestFirst userId n next fuel 0 none = .ret edges ∧
    List.Forall₂ backend.EdgeOf urls edges ∧
    urls.Perm (backend.table.listing userId latestFirst)

/-- `Convert` returns, which does not depend on the clock. -/
def Backend.Converts (backend : Backend) (url : Url) : Prop :=
  (convert backend.env backend.shardId 0 url).Returns

variable {backend : Backend}

/-! ## Edges -/

theorem Backend.converts_iff (now : ℤ) (url : Url) :
    (convert backend.env backend.shardId now url).Returns ↔ backend.Converts url :=
  convert_returns_congr backend.env backend.shardId now 0 url

theorem Backend.EdgeOf.converts {url : Url} {edge : Edge Grpc.UrlStats}
    (h : backend.EdgeOf url edge) : backend.Converts url := by
  obtain ⟨now, stats, hstats, -⟩ := h.node
  exact (converts_iff now url).mp ⟨stats, hstats⟩

theorem Backend.edgeOf_of_edge {clock : Url → ℤ} {url : Url} {edge : Edge UrlStats}
    (h : backend.edge clock url = .ret edge) : backend.EdgeOf url edge.serialize := by
  obtain ⟨node, hnode, h⟩ := Exec.bind_eq_ret_iff.mp h
  obtain rfl := Exec.ret.inj h
  exact ⟨rfl, clock url, node, hnode, rfl⟩

theorem Backend.edge_returns (clock : Url → ℤ) {url : Url} (h : backend.Converts url) :
    (backend.edge clock url).Returns := by
  obtain ⟨node, hnode⟩ := (converts_iff (clock url) url).mpr h
  exact Exec.returns_bind.mpr ⟨node, hnode, Exec.returns_ret _⟩

/-- The edges of a page. -/
theorem Backend.edges_of_mapM {clock : Url → ℤ} {urls : List Url} {edges : List (Edge UrlStats)}
    (h : urls.mapM (backend.edge clock) = .ret edges) :
    List.Forall₂ backend.EdgeOf urls (edges.map Edge.serialize) := by
  rw [List.forall₂_map_right_iff]
  exact (Exec.mapM_eq_ret_iff.mp h).imp fun _ _ => edgeOf_of_edge

theorem Backend.lastEdge_of_append {page : List Url} {b : Url} {edges : List (Edge Grpc.UrlStats)}
    (h : List.Forall₂ backend.EdgeOf (page ++ [b]) edges) :
    ∃ edge, edges.getLast? = some edge ∧ backend.EdgeOf b edge := by
  rw [← List.forall₂_reverse_iff, List.reverse_append] at h
  obtain ⟨edge, edges', hedge, -, hreverse⟩ := List.forall₂_cons_left_iff.mp h
  rw [List.getLast?_eq_head?_reverse, hreverse]
  exact ⟨edge, rfl, hedge⟩

/-- An edge determines the row of the table that it is of. -/
theorem Backend.EdgeOf.unique {url url' : Url} {edge : Edge Grpc.UrlStats}
    (h : backend.EdgeOf url edge) (h' : backend.EdgeOf url' edge)
    (hmem : url ∈ backend.table.rows) (hmem' : url' ∈ backend.table.rows) : url = url' := by
  have hparse := parseCursor_createCursor (backend.table.isInt32_id url hmem)
    (backend.table.isInstant_updatedAt url hmem)
  have hparse' := parseCursor_createCursor (backend.table.isInt32_id url' hmem')
    (backend.table.isInstant_updatedAt url' hmem')
  rw [← h.cursor, h'.cursor, hparse'] at hparse
  have hid : url'.id = url.id := (Prod.mk.inj (Exec.ret.inj hparse)).1
  exact List.inj_on_of_nodup_map backend.table.nodup_id hmem hmem' hid.symm

/-! ## Replies -/

section

variable {latestFirst : Bool} {userId : ℤ} {n : ℕ} {cursor : Option String}
  {parsed : Option (ℤ × ℤ)}

/-- A reply is a last page, or a page with a successor. -/
theorem Backend.reply_cases {clock : Url → ℤ} {connection : Connection Grpc.UrlStats}
    (hn : 1 ≤ n ∧ n ≤ 50) (hcursor : parseCursor? cursor = .ret parsed)
    (h : backend.getByUserId clock (pageRequest latestFirst userId n cursor) = .ret connection) :
    (backend.table.beyond userId latestFirst parsed ≠ [] ∧
      (backend.table.beyond userId latestFirst parsed).length ≤ n ∧
      connection.pageInfo = .empty ∧
      List.Forall₂ backend.EdgeOf (sortBy Url.id (backend.table.beyond userId latestFirst parsed))
        connection.edges) ∨
    ∃ page e z, n < (backend.table.beyond userId latestFirst parsed).length ∧
      backend.table.fetched userId latestFirst (n + 1) parsed = page ++ [e, z] ∧
      connection.pageInfo = .more latestFirst (createCursor z.id z.updatedAt) ∧
      List.Forall₂ backend.EdgeOf (page ++ [e]) connection.edges := by
  by_cases hne : backend.table.beyond userId latestFirst parsed = []
  · rw [getByUserId_empty backend hn hcursor hne] at h
    cases h
  · by_cases hlen : (backend.table.beyond userId latestFirst parsed).length ≤ n
    · rw [getByUserId_last backend hn hcursor hne hlen] at h
      obtain ⟨edges, hedges, h⟩ := Exec.bind_eq_ret_iff.mp h
      obtain rfl := Exec.ret.inj h
      exact .inl ⟨hne, hlen, rfl, edges_of_mapM hedges⟩
    · obtain ⟨page, e, z, hfetched, hpage⟩ :=
        exists_fetch (rowPlace latestFirst) Url.id hn.1 (not_le.mp hlen)
      rw [getByUserId_more backend hn hcursor hfetched hpage] at h
      obtain ⟨edges, hedges, h⟩ := Exec.bind_eq_ret_iff.mp h
      obtain rfl := Exec.ret.inj h
      exact .inr ⟨page, e, z, not_le.mp hlen, hfetched, rfl, edges_of_mapM hedges⟩

/-- The page is what was fetched without the last row. -/
theorem Backend.take_fetched {page : List Url} {e z : Url}
    (hlen : n < (backend.table.beyond userId latestFirst parsed).length)
    (hfetched : backend.table.fetched userId latestFirst (n + 1) parsed = page ++ [e, z]) :
    page.length + 1 = n ∧
      (backend.table.fetched userId latestFirst (n + 1) parsed).take n = page ++ [e] := by
  have hlength : (backend.table.fetched userId latestFirst (n + 1) parsed).length =
      ((backend.table.beyond userId latestFirst parsed).take (n + 1)).length :=
    (fetch_perm _ _ _ _ _).length_eq
  rw [hfetched, List.length_take] at hlength
  have hpage : page.length + 1 = n := by
    simp only [List.length_append, List.length_cons, List.length_nil] at hlength
    omega
  refine ⟨hpage, ?_⟩
  rw [hfetched, show page ++ [e, z] = (page ++ [e]) ++ [z] by simp]
  exact List.take_left' (by simp; omega)

theorem Backend.reply_edges {clock : Url → ℤ} {connection : Connection Grpc.UrlStats}
    (hn : 1 ≤ n ∧ n ≤ 50) (hcursor : parseCursor? cursor = .ret parsed)
    (h : backend.getByUserId clock (pageRequest latestFirst userId n cursor) = .ret connection) :
    List.Forall₂ backend.EdgeOf ((backend.table.fetched userId latestFirst (n + 1) parsed).take n)
      connection.edges := by
  rcases reply_cases hn hcursor h with ⟨-, hlen, -, hedges⟩ | ⟨page, e, z, hlen, hfetched, -, hedges⟩
  · rw [fetched_last backend hlen, List.take_of_length_le]
    · exact hedges
    · rwa [(sortBy_perm _ _).length_eq]
  · rwa [(take_fetched hlen hfetched).2]

/-- A page is returned if its URLs can be converted. -/
theorem Backend.reply_returns (clock : Url → ℤ) (hn : 1 ≤ n ∧ n ≤ 50)
    (hcursor : parseCursor? cursor = .ret parsed)
    (hne : backend.table.beyond userId latestFirst parsed ≠ [])
    (hconverts : ∀ url ∈ (backend.table.fetched userId latestFirst (n + 1) parsed).take n,
      backend.Converts url) :
    (backend.getByUserId clock (pageRequest latestFirst userId n cursor)).Returns := by
  by_cases hlen : (backend.table.beyond userId latestFirst parsed).length ≤ n
  · rw [fetched_last backend hlen, List.take_of_length_le (by rwa [(sortBy_perm _ _).length_eq])]
      at hconverts
    obtain ⟨edges, hedges⟩ := Exec.mapM_returns_iff.mpr fun url hurl =>
      edge_returns clock (hconverts url hurl)
    rw [getByUserId_last backend hn hcursor hne hlen, hedges]
    exact Exec.returns_ret _
  · obtain ⟨page, e, z, hfetched, hpage⟩ :=
      exists_fetch (rowPlace latestFirst) Url.id hn.1 (not_le.mp hlen)
    rw [(take_fetched (not_le.mp hlen) hfetched).2] at hconverts
    obtain ⟨edges, hedges⟩ := Exec.mapM_returns_iff.mpr fun url hurl =>
      edge_returns clock (hconverts url hurl)
    rw [getByUserId_more backend hn hcursor hfetched hpage, hedges]
    exact Exec.returns_ret _

end

/-! ## Walks and listings -/

/-- After a page that ends with `e` and leaves `z` out, `next` is the cursor of the row
    `choose e z`, one of the two. -/
structure Backend.Follows (backend : Backend) (latestFirst : Bool)
    (next : Connection Grpc.UrlStats → Option String) (choose : Url → Url → Url) : Prop where
  choose_eq : ∀ e z, choose e z = e ∨ choose e z = z
  next_eq : ∀ {page : List Url} {e z : Url} {connection : Connection Grpc.UrlStats},
    connection.pageInfo = .more latestFirst (createCursor z.id z.updatedAt) →
    List.Forall₂ backend.EdgeOf (page ++ [e]) connection.edges →
    next connection = some (createCursor (choose e z).id (choose e z).updatedAt)

/-- The place of the cursor of a row, which was cut off to a millisecond. -/
def cutPlace (latestFirst : Bool) (url : Url) : ℤ ×ₗ ℤ :=
  place latestFirst url.id (floorMillisecond url.updatedAt)

/-- The place of the next cursor. -/
def nextPlace (latestFirst : Bool) (choose : Url → Url → Url) (e z : Url) : ℤ ×ₗ ℤ :=
  cutPlace latestFirst (choose e z)

section

variable {clock : ℕ → Url → ℤ} {latestFirst : Bool} {userId : ℤ} {n : ℕ}
  {next : Connection Grpc.UrlStats → Option String} {choose : Url → Url → Url}

theorem Backend.mem_rows_of_beyond {parsed : Option (ℤ × ℤ)} {url : Url}
    (h : url ∈ backend.table.beyond userId latestFirst parsed) : url ∈ backend.table.rows :=
  UrlTable.mem_rows_of_listing (past_subset _ _ _ h)

theorem Backend.mem_rows_of_fetched {parsed : Option (ℤ × ℤ)} {limit : ℕ} {url : Url}
    (h : url ∈ backend.table.fetched userId latestFirst limit parsed) : url ∈ backend.table.rows :=
  mem_rows_of_beyond (mem_past_of_fetch h)

/-- The cursor of a row of the table can be parsed. -/
theorem Backend.parse_createCursor {url : Url} (h : url ∈ backend.table.rows) :
    parseCursor? (some (createCursor url.id url.updatedAt)) =
      .ret (some (url.id, floorMillisecond url.updatedAt)) := by
  rw [parseCursor?, parseCursor_createCursor (backend.table.isInt32_id _ h)
    (backend.table.isInstant_updatedAt _ h)]
  rfl

/-- The next cursor can be parsed. -/
theorem Backend.Follows.parse (hfollows : backend.Follows latestFirst next choose)
    {parsed : Option (ℤ × ℤ)} {page : List Url} {e z : Url} {limit : ℕ}
    (hfetched : backend.table.fetched userId latestFirst limit parsed = page ++ [e, z]) :
    parseCursor? (some (createCursor (choose e z).id (choose e z).updatedAt)) =
      .ret (some ((choose e z).id, floorMillisecond (choose e z).updatedAt)) := by
  have hmem : choose e z ∈ backend.table.fetched userId latestFirst limit parsed := by
    rw [hfetched]
    rcases hfollows.choose_eq e z with h | h <;> simp [h]
  exact parse_createCursor (mem_rows_of_fetched hmem)

/-- A walk of the service is a walk of the listing. -/
theorem Backend.walk_sound (hn : 1 ≤ n ∧ n ≤ 50) (hfollows : backend.Follows latestFirst next choose)
    {fuel call : ℕ} {cursor : Option String} {parsed : Option (ℤ × ℤ)}
    {edges : List (Edge Grpc.UrlStats)} (hcursor : parseCursor? cursor = .ret parsed)
    (h : backend.walk clock latestFirst userId n next fuel call cursor = .ret edges) :
    ∃ received, Walk (rowPlace latestFirst) Url.id (nextPlace latestFirst choose) n
        (backend.table.listing userId latestFirst)
        (parsed.map fun c => place latestFirst c.1 c.2) received ∧
      List.Forall₂ backend.EdgeOf received edges := by
  induction fuel generalizing call cursor parsed edges with
  | zero => cases h
  | succ fuel ih =>
    obtain ⟨connection, hcall, h⟩ := Exec.bind_eq_ret_iff.mp h
    rcases reply_cases hn hcursor hcall with ⟨hne, hlen, hinfo, hedges⟩ |
      ⟨page, e, z, hlen, hfetched, hinfo, hedges⟩
    · rw [hinfo, PageInfo.hasMore_empty, if_neg Bool.false_ne_true] at h
      obtain rfl := Exec.ret.inj h
      exact ⟨_, .last hne hlen, hedges⟩
    · rw [hinfo, PageInfo.hasMore_more, if_pos rfl] at h
      obtain ⟨edges', hwalk, h⟩ := Exec.bind_eq_ret_iff.mp h
      obtain rfl := Exec.ret.inj h
      rw [hfollows.next_eq hinfo hedges] at hwalk
      obtain ⟨received, hreceived, hedges'⟩ := ih (hfollows.parse hfetched) hwalk
      refine ⟨page ++ e :: received, .more hlen hfetched hreceived, ?_⟩
      rw [show page ++ e :: received = (page ++ [e]) ++ received by simp]
      exact List.rel_append hedges hedges'

/-- A walk of the listing is a walk of the service if the URLs can be converted. -/
theorem Backend.walk_complete (hn : 1 ≤ n ∧ n ≤ 50)
    (hfollows : backend.Follows latestFirst next choose)
    (hconverts : ∀ url ∈ backend.table.listing userId latestFirst, backend.Converts url)
    {c : Option (ℤ ×ₗ ℤ)} {received : List Url}
    (h : Walk (rowPlace latestFirst) Url.id (nextPlace latestFirst choose) n
      (backend.table.listing userId latestFirst) c received)
    {call : ℕ} {cursor : Option String} {parsed : Option (ℤ × ℤ)}
    (hc : c = parsed.map fun c => place latestFirst c.1 c.2)
    (hcursor : parseCursor? cursor = .ret parsed) :
    ∃ fuel edges, backend.walk clock latestFirst userId n next fuel call cursor = .ret edges ∧
      List.Forall₂ backend.EdgeOf received edges := by
  have hconverts' : ∀ parsed,
      ∀ url ∈ (backend.table.fetched userId latestFirst (n + 1) parsed).take n,
        backend.Converts url := fun parsed url hurl =>
    hconverts url (past_subset _ _ _ (mem_past_of_fetch (List.mem_of_mem_take hurl)))
  induction h generalizing call cursor parsed with
  | last hne hlen =>
    subst hc
    obtain ⟨connection, hcall⟩ := reply_returns (clock call) hn hcursor hne (hconverts' parsed)
    rcases reply_cases hn hcursor hcall with ⟨-, -, hinfo, hedges⟩ | ⟨page, e, z, hlen', -, -, -⟩
    · refine ⟨1, connection.edges, ?_, hedges⟩
      rw [Backend.walk, hcall, Exec.ret_bind, hinfo, PageInfo.hasMore_empty,
        if_neg Bool.false_ne_true, Exec.pure_eq]
    · exact absurd hlen (not_le.mpr hlen')
  | @more _ page e z received hlen hfetch _ ih =>
    subst hc
    have hfetched : backend.table.fetched userId latestFirst (n + 1) parsed = page ++ [e, z] := hfetch
    have hne : backend.table.beyond userId latestFirst parsed ≠ [] :=
      List.ne_nil_of_length_pos (Nat.zero_lt_of_lt hlen)
    obtain ⟨connection, hcall⟩ := reply_returns (clock call) hn hcursor hne (hconverts' parsed)
    rcases reply_cases hn hcursor hcall with ⟨-, hlen', -, -⟩ |
      ⟨page', e', z', -, hfetched', hinfo, hedges⟩
    · exact absurd hlen' (not_le.mpr hlen)
    · obtain ⟨rfl, htail⟩ := List.append_inj' (hfetched.symm.trans hfetched') rfl
      obtain ⟨he, htail⟩ := List.cons.inj htail
      obtain ⟨hz, -⟩ := List.cons.inj htail
      rw [← he] at hedges
      rw [← hz] at hinfo
      obtain ⟨fuel, edges, hwalk, hedges'⟩ := @ih (call + 1) _ _ rfl (hfollows.parse hfetched)
      refine ⟨fuel + 1, connection.edges ++ edges, ?_, ?_⟩
      · rw [Backend.walk, hcall, Exec.ret_bind, hinfo, PageInfo.hasMore_more, if_pos rfl,
          hfollows.next_eq hinfo hedges, hwalk, Exec.ret_bind, Exec.pure_eq]
      · rw [show page ++ e :: received = (page ++ [e]) ++ received by simp]
        exact List.rel_append hedges hedges'

/-- What a walk of the service receives are the rows of a walk of the listing. -/
theorem Backend.received_eq (hn : 1 ≤ n ∧ n ≤ 50)
    (hfollows : backend.Follows latestFirst next choose) {fuel : ℕ}
    {edges : List (Edge Grpc.UrlStats)} {urls : List Url}
    (hedges : backend.walk clock latestFirst userId n next fuel 0 none = .ret edges)
    (hall : List.Forall₂ backend.EdgeOf urls edges) (hurls : ∀ url ∈ urls, url ∈ backend.table.rows) :
    Walk (rowPlace latestFirst) Url.id (nextPlace latestFirst choose) n
      (backend.table.listing userId latestFirst) none urls ∧
    ∀ url ∈ urls, backend.Converts url := by
  obtain ⟨received, hreceived, hedges'⟩ :=
    walk_sound hn hfollows (show parseCursor? none = .ret none from rfl) hedges
  -- the same edges are of the same rows
  have heq : received = urls := by
    have hunique : Relator.LeftUnique fun url edge =>
        url ∈ backend.table.rows ∧ backend.EdgeOf url edge :=
      fun url edge url' h h' => h.2.unique h'.2 h.1 h'.1
    exact List.left_unique_forall₂' hunique
      ((List.forall₂_and_left _ _).mpr
        ⟨fun url h => UrlTable.mem_rows_of_listing (hreceived.subset h), hedges'⟩)
      ((List.forall₂_and_left _ _).mpr ⟨hurls, hall⟩)
  have hconverts := hall.imp fun url edge h => And.intro h.converts h
  exact ⟨heq ▸ hreceived, ((List.forall₂_and_left _ _).mp hconverts).1⟩

/-- A walk receives everything in the order of the listing exactly if there is something, it can
    be converted, the ids ascend, and at every boundary the cursor lies between the two rows. -/
theorem Backend.receivesAll_iff (hn : 1 ≤ n ∧ n ≤ 50)
    (hfollows : backend.Follows latestFirst next choose) :
    backend.ReceivesAll clock latestFirst userId n next ↔
      backend.table.listing userId latestFirst ≠ [] ∧
      (∀ url ∈ backend.table.listing userId latestFirst, backend.Converts url) ∧
      Listing Url.id (backend.table.listing userId latestFirst) ∧
      Continues (rowPlace latestFirst) (nextPlace latestFirst choose) n
        (backend.table.listing userId latestFirst) := by
  have hwalk := walk_rows_iff (nextPlace latestFirst choose) hn.1
    (backend.table.listing_sorted userId latestFirst)
    (backend.table.listing_nodup_id userId latestFirst)
  constructor
  · intro hreceives
    obtain ⟨fuel, edges, hedges, hall⟩ := hreceives
    obtain ⟨hreceived, hconverts⟩ := received_eq hn hfollows hedges hall
      fun url h => UrlTable.mem_rows_of_listing h
    obtain ⟨hne, hsorted, hcontinues⟩ := hwalk.mp hreceived
    exact ⟨hne, hconverts, hsorted, hcontinues⟩
  · intro ⟨hne, hconverts, hsorted, hcontinues⟩
    exact walk_complete hn hfollows hconverts (hwalk.mpr ⟨hne, hsorted, hcontinues⟩) rfl
      (show parseCursor? none = .ret none from rfl)

/-- A walk receives everything once, in any order, exactly if it can be converted and a walk of
    the listing does. -/
theorem Backend.receivesEach_iff (hn : 1 ≤ n ∧ n ≤ 50)
    (hfollows : backend.Follows latestFirst next choose) :
    backend.ReceivesEach clock latestFirst userId n next ↔
      (∀ url ∈ backend.table.listing userId latestFirst, backend.Converts url) ∧
      ∃ received, Walk (rowPlace latestFirst) Url.id (nextPlace latestFirst choose) n
          (backend.table.listing userId latestFirst) none received ∧
        received.Perm (backend.table.listing userId latestFirst) := by
  constructor
  · intro hreceives
    obtain ⟨fuel, edges, urls, hedges, hall, hperm⟩ := hreceives
    obtain ⟨hreceived, hconverts⟩ := received_eq hn hfollows hedges hall
      fun url h => UrlTable.mem_rows_of_listing (hperm.mem_iff.mp h)
    exact ⟨fun url hurl => hconverts url (hperm.mem_iff.mpr hurl), urls, hreceived, hperm⟩
  · intro ⟨hconverts, received, hwalk, hperm⟩
    obtain ⟨fuel, edges, hedges, hall⟩ := walk_complete hn hfollows hconverts hwalk rfl
      (show parseCursor? none = .ret none from rfl)
    exact ⟨fuel, edges, received, hedges, hall, hperm⟩

end

end Shortener.Urls
