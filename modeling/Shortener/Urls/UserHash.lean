import Shortener.Common.Run
import Shortener.Urls.Arguments

/-!
# The pages of a user in the cache

The backend stores each page it computes in a hash of Redis, one entry for each choice of
arguments, and the frontends answer `GetByUserId` from there. `Update` and `Delete` drop the
hash of the user, `Create` does not (`Shortener.GrpcBackend/Services/UrlService.cs`). The
calls of one user come one at a time, each with its work items; a call that throws before
its statement changes nothing. What is stored is the page before it is printed as JSON.

* `page_add_iff`: when the insert of a URL leaves a page as it is.
* `allFresh_iff`: the entries are up to date in every state exactly if each `Create` leaves the
  pages in the hash as they are.
* `reads_own_writes`: then the user reads his own writes.
* `create_hidden`: without that, a new URL is missing on a page that was read before.
-/

namespace Shortener.Urls

open Shortener.Common Shortener.DotNet Shortener.Codec Shortener.Stats

/-! ## The table -/

section

variable {userId : ℤ} {input : GetUrlsInput}

/-- The `INSERT` of `UrlRepository.Add`. -/
def UrlTable.add (table : UrlTable) (url : Url)
    (h : url.id ∉ table.rows.map Url.id ∧ IsInt32 url.id ∧ IsInstant url.updatedAt) : UrlTable where
  rows := table.rows ++ [url]
  nodup_id := by
    rw [List.map_append]
    exact table.nodup_id.append (List.nodup_singleton _) (by simpa using h.1)
  isInt32_id := by
    intro row hrow
    rcases List.mem_append.mp hrow with hrow | hrow
    · exact table.isInt32_id row hrow
    · rw [List.mem_singleton.mp hrow]
      exact h.2.1
  isInstant_updatedAt := by
    intro row hrow
    rcases List.mem_append.mp hrow with hrow | hrow
    · exact table.isInstant_updatedAt row hrow
    · rw [List.mem_singleton.mp hrow]
      exact h.2.2

/-- What `UrlRepository.Update` does to a row. -/
def updateRow (id userId : ℤ) (destinationUrl : String) (now : ℤ) (url : Url) : Url :=
  if url.id = id ∧ url.userId = userId then
    { url with destinationUrl := destinationUrl, updatedAt := now }
  else url

theorem updateRow_id (id userId : ℤ) (destinationUrl : String) (now : ℤ) (url : Url) :
    (updateRow id userId destinationUrl now url).id = url.id := by
  unfold updateRow
  split_ifs <;> rfl

/-- `UrlRepository.Update`. -/
def UrlTable.update (table : UrlTable) (id userId : ℤ) (destinationUrl : String) (now : ℤ)
    (h : IsInstant now) : UrlTable where
  rows := table.rows.map (updateRow id userId destinationUrl now)
  nodup_id := by
    have hids : (Url.id ∘ updateRow id userId destinationUrl now) = Url.id := by
      funext url
      exact updateRow_id id userId destinationUrl now url
    rw [List.map_map, hids]
    exact table.nodup_id
  isInt32_id := by
    intro row hrow
    obtain ⟨url, hurl, rfl⟩ := List.mem_map.mp hrow
    rw [updateRow_id]
    exact table.isInt32_id url hurl
  isInstant_updatedAt := by
    intro row hrow
    obtain ⟨url, hurl, rfl⟩ := List.mem_map.mp hrow
    unfold updateRow
    split_ifs
    · exact h
    · exact table.isInstant_updatedAt url hurl

/-- `UrlRepository.Delete`. -/
def UrlTable.delete (table : UrlTable) (id userId : ℤ) : UrlTable where
  rows := table.rows.filter fun url => ¬ (url.id = id ∧ url.userId = userId)
  nodup_id := table.nodup_id.sublist (List.filter_sublist.map Url.id)
  isInt32_id := fun url hurl => table.isInt32_id url (List.mem_of_mem_filter hurl)
  isInstant_updatedAt := fun url hurl => table.isInstant_updatedAt url (List.mem_of_mem_filter hurl)

/-- A new row is put somewhere into the rows beyond a cursor, if at all. -/
theorem beyond_add (userId : ℤ) {table : UrlTable} {url : Url}
    (h : url.id ∉ table.rows.map Url.id ∧ IsInt32 url.id ∧ IsInstant url.updatedAt)
    (latestFirst : Bool) (cursor : Option (ℤ × ℤ)) :
    ((table.add url h).beyond userId latestFirst cursor).filter (fun row => row.id ≠ url.id) =
      table.beyond userId latestFirst cursor := by
  have hold : ((table.add url h).rows.filter fun row => row.userId = userId).filter
      (fun row => row.id ≠ url.id) = table.rows.filter fun row => row.userId = userId := by
    rw [List.filter_filter]
    simp only [UrlTable.add, List.filter_append]
    have hnew : List.filter (fun row : Url => decide (row.id ≠ url.id) && decide (row.userId = userId))
        [url] = [] := by
      simp
    rw [hnew, List.append_nil]
    apply List.filter_congr
    intro row hrow
    have hne : row.id ≠ url.id := fun heq => h.1 (heq ▸ List.mem_map_of_mem hrow)
    simp [hne]
  unfold UrlTable.beyond UrlTable.listing past
  rw [← hold, sortBy_filter ((table.add url h).nodup_rowPlace latestFirst userId), List.filter_filter,
    List.filter_filter]
  apply List.filter_congr
  intro row _
  exact Bool.and_comm _ _

/-- The page stays the same when `url` is inserted: `url` is not among the first rows beyond its
    cursor, or the other rows fill the page and the one left out, if there is one, has the largest
    id of them. -/
def UrlTable.LeavesPage (table : UrlTable) (userId : ℤ) (input : GetUrlsInput) (url : Url) : Prop :=
  ∀ cursor, parseCursor? input.cursor = .ret cursor →
    let rows := table.beyond userId input.latestFirst cursor
    (∀ h, url ∉ ((table.add url h).beyond userId input.latestFirst cursor).take
      (input.pageSize + 1)) ∨
    (input.pageSize ≤ rows.length ∧
      ∀ z ∈ rows[input.pageSize]?, ∀ row ∈ rows.take input.pageSize, row.id < z.id)

theorem UrlTable.beyond_nodup_id (table : UrlTable) (userId : ℤ) (latestFirst : Bool)
    (cursor : Option (ℤ × ℤ)) : ((table.beyond userId latestFirst cursor).map Url.id).Nodup :=
  (table.listing_nodup_id userId latestFirst).sublist (List.filter_sublist.map Url.id)

theorem UrlTable.ofUser_of_beyond {table : UrlTable} {latestFirst : Bool}
    {cursor : Option (ℤ × ℤ)} {url : Url} (h : url ∈ table.beyond userId latestFirst cursor) :
    url ∈ table.rows ∧ url.userId = userId := by
  have hmem := (table.listing_perm userId latestFirst).mem_iff.mp (past_subset _ _ _ h)
  simpa using hmem

/-- The insert of a URL that is newer than the user's other URLs. -/
theorem page_add_iff {table : UrlTable} {url : Url}
    (h : url.id ∉ table.rows.map Url.id ∧ IsInt32 url.id ∧ IsInstant url.updatedAt)
    (hnew : ∀ row ∈ table.rows, row.userId = userId → row.id < url.id) :
    (table.add url h).page userId input = table.page userId input ↔
      table.LeavesPage userId input url := by
  unfold UrlTable.page UrlTable.LeavesPage
  cases hparse : parseCursor? input.cursor with
  | ret cursor =>
    have hold := beyond_add userId h input.latestFirst cursor
    have hids := table.beyond_nodup_id userId input.latestFirst cursor
    have hmax : ∀ row ∈ table.beyond userId input.latestFirst cursor, row.id < url.id := fun row hrow =>
      hnew row (UrlTable.ofUser_of_beyond hrow).1 (UrlTable.ofUser_of_beyond hrow).2
    have hnot : ∀ row ∈ (table.add url h).beyond userId input.latestFirst cursor,
        decide (row.id ≠ url.id) = true ↔ row ≠ url := by
      intro row hrow
      rw [decide_eq_true_eq, not_iff_not]
      refine ⟨fun hid => ?_, congrArg Url.id⟩
      exact List.inj_on_of_nodup_map (table.add url h).nodup_id (UrlTable.ofUser_of_beyond hrow).1
        (by simp [UrlTable.add]) hid
    by_cases hmem : url ∈ ((table.add url h).beyond userId input.latestFirst cursor).take
        (input.pageSize + 1)
    · have hperm := take_succ_perm
        ((table.add url h).beyond_nodup_id userId input.latestFirst cursor).of_map hnot hmem
      rw [hold] at hperm
      have hiff := take_sortBy_insert_iff hids hperm hmax
      constructor
      · intro hpage cursor' hcursor'
        obtain rfl := Exec.ret.inj hcursor'
        exact Or.inr (hiff.mp hpage)
      · intro hleaves
        exact hiff.mpr ((hleaves cursor rfl).resolve_left fun hnotmem => hnotmem h hmem)
    · have hothers : ∀ row ∈ ((table.add url h).beyond userId input.latestFirst cursor).take
          (input.pageSize + 1), decide (row.id ≠ url.id) = true := by
        intro row hrow
        refine (hnot row (List.mem_of_mem_take hrow)).mpr ?_
        rintro rfl
        exact hmem hrow
      have htake := take_filter hothers
      rw [hold] at htake
      refine iff_of_true ?_ fun cursor' hcursor' => Or.inl fun h' => ?_
      · exact congrArg (fun rows => (sortBy Url.id rows).take input.pageSize) htake.symm
      · obtain rfl := Exec.ret.inj hcursor'
        exact hmem
  | throw e => simp
  | diverge => simp

theorem UrlTable.mem_rows_of_page {table : UrlTable} {url : Url}
    (h : url ∈ table.page userId input) : url ∈ table.rows := by
  unfold UrlTable.page at h
  split at h
  · exact UrlTable.mem_rows_of_listing (past_subset _ _ _ (mem_past_of_fetch (List.mem_of_mem_take h)))
  · cases h

end

/-! ## State and steps -/

namespace UserHash

/-- The table, and the hash of a user. -/
structure State where
  table : UrlTable
  /-- the hash `User:{userId}` -/
  hash : String → Option (Connection UrlStats)

/-- What can happen next. -/
inductive Event
  /-- The `INSERT` of `Create`; ids ascend. -/
  | create (id : ℤ) (destinationUrl : String) (now : ℤ)
  /-- `Update` with its work items. -/
  | update (id : ℤ) (destinationUrl : String) (now : ℤ)
  /-- `Delete` with its work items. -/
  | delete (id : ℤ)
  /-- `GetByUserId` of a frontend, with the work item of the backend. -/
  | getByUserId (input : GetUrlsInput) (clock : Url → ℤ)
  /-- The hash expires. -/
  | expire

/-- The row that `Create` inserts. -/
def newUrl (userId id : ℤ) (destinationUrl : String) (now : ℤ) : Url where
  id := id
  destinationUrl := destinationUrl
  userId := userId
  totalViews := 0
  visits := []
  updatedAt := now

section

variable (env : Globalization) (shardId userId : ℤ)

/-- The backend that reads the table. -/
def State.backend (s : State) : Backend := ⟨env, shardId, s.table⟩

/-- The calls of user `userId` of shard `shardId`. -/
def step (s : State) : Event → Option State
  | .create id destinationUrl now =>
    let url := newUrl userId id destinationUrl now
    if h : url.id ∉ s.table.rows.map Url.id ∧ IsInt32 url.id ∧ IsInstant url.updatedAt then
      if ∀ row ∈ s.table.rows, row.userId = userId → row.id < id then
        some { s with table := s.table.add url h }
      else none
    else none
  | .update id destinationUrl now =>
    if h : IsInstant now then
      some { table := s.table.update id userId destinationUrl now h, hash := fun _ => none }
    else none
  | .delete id => some { table := s.table.delete id userId, hash := fun _ => none }
  | .getByUserId input clock =>
    if input.IsValid then
      match s.hash input.entryKey, (s.backend env shardId).connection clock (input.request userId) with
      | some _, _ => some s
      | none, .ret connection =>
        some { s with
          hash := Function.update s.hash (input.request userId).entryKey (some connection) }
      | none, _ => some s
    else none
  | .expire => some { s with hash := fun _ => none }

/-- `Create` leaves the pages in the hash as they are. -/
def LeavesPages (s : State) : Event → Prop
  | .create id destinationUrl now =>
    ∀ input, input.IsValid → ¬ input.EmptyBefore → s.hash input.entryKey ≠ none →
      s.table.LeavesPage userId input (newUrl userId id destinationUrl now)
  | _ => True

/-- Every entry holds the rows of its page. -/
def AllFresh (s : State) : Prop :=
  ∀ input connection, input.IsValid → ¬ input.EmptyBefore →
    s.hash input.entryKey = some connection → (s.backend env shardId).Fresh userId input connection

end

variable {env : Globalization} {shardId userId : ℤ} {s t : State} {e : Event} {es : List Event}

/-! ## When the entries stay up to date -/

/-- Whether an entry is up to date does not depend on the rest of the table. -/
theorem fresh_congr {table table' : UrlTable} {input : GetUrlsInput} {connection : Connection UrlStats}
    (hpage : table'.page userId input = table.page userId input)
    (h : Backend.Fresh ⟨env, shardId, table⟩ userId input connection) :
    Backend.Fresh ⟨env, shardId, table'⟩ userId input connection := by
  refine ⟨hpage.trans_ne h.page_ne_nil, ?_⟩
  show List.Forall₂ _ (table'.page userId input) _
  rw [hpage]
  exact h.edges.imp fun url edge hedge => ⟨hedge.cursor, hedge.node⟩

/-- An entry that was up to date still is exactly if the page is the same. -/
theorem fresh_add_iff {table : UrlTable} {input : GetUrlsInput} {url : Url}
    {connection : Connection UrlStats}
    (h : url.id ∉ table.rows.map Url.id ∧ IsInt32 url.id ∧ IsInstant url.updatedAt)
    (hold : Backend.Fresh ⟨env, shardId, table⟩ userId input connection) :
    Backend.Fresh ⟨env, shardId, table.add url h⟩ userId input connection ↔
      (table.add url h).page userId input = table.page userId input := by
  refine ⟨fun hnew => ?_, fun hpage => fresh_congr hpage hold⟩
  let backend : Backend := ⟨env, shardId, table.add url h⟩
  have hunique : Relator.LeftUnique fun (row : Url) (edge : Edge Grpc.UrlStats) =>
      row ∈ (table.add url h).rows ∧ backend.EdgeOf row edge := by
    intro row row' edge hrow hrow'
    exact hrow.2.unique hrow'.2 hrow.1 hrow'.1
  have hrows : ∀ row ∈ table.page userId input, row ∈ (table.add url h).rows := by
    intro row hrow
    exact List.mem_append_left _ (UrlTable.mem_rows_of_page hrow)
  have hedges : List.Forall₂ backend.EdgeOf (table.page userId input) connection.serialize.edges :=
    hold.edges.imp fun row edge hedge => ⟨hedge.cursor, hedge.node⟩
  -- both pages have the same edges, and so the same rows
  exact List.left_unique_forall₂' hunique
    ((List.forall₂_and_left _ _).mpr ⟨fun row => UrlTable.mem_rows_of_page, hnew.edges⟩)
    ((List.forall₂_and_left _ _).mpr ⟨hrows, hedges⟩)

/-- **Step.** -/
theorem allFresh_step (hf : AllFresh env shardId userId s)
    (h : step env shardId userId s e = some t) :
    AllFresh env shardId userId t ↔ LeavesPages userId s e := by
  cases e with
  | create id destinationUrl now =>
    simp only [step, Option.dite_none_right_eq_some, Option.ite_none_right_eq_some,
      Option.some.injEq] at h
    obtain ⟨hurl, hnew, rfl⟩ := h
    constructor
    · intro ht input hv he hentry
      obtain ⟨connection, hconnection⟩ := Option.ne_none_iff_exists'.mp hentry
      exact (page_add_iff hurl hnew).mp ((fresh_add_iff hurl (hf input connection hv he hconnection)).mp
        (ht input connection hv he hconnection))
    · intro hl input connection hv he hconnection
      have hpage := (page_add_iff hurl hnew).mpr (hl input hv he (by rw [hconnection]; simp))
      exact (fresh_add_iff hurl (hf input connection hv he hconnection)).mpr hpage
  | update id destinationUrl now =>
    simp only [step, Option.dite_none_right_eq_some, Option.some.injEq] at h
    obtain ⟨hnow, rfl⟩ := h
    exact iff_of_true (fun _ _ _ _ hconnection => by cases hconnection) trivial
  | delete id =>
    obtain rfl := Option.some.inj h
    exact iff_of_true (fun _ _ _ _ hconnection => by cases hconnection) trivial
  | getByUserId input clock =>
    apply iff_of_true _ trivial
    simp only [step, Option.ite_none_right_eq_some] at h
    obtain ⟨hv, h⟩ := h
    split at h
    · obtain rfl := Option.some.inj h
      exact hf
    · rename_i connection _ hconnection
      obtain rfl := Option.some.inj h
      have hfresh := fresh_of_connection hv hconnection
      intro input' connection' hv' he' hentry
      by_cases hkey : input'.entryKey = (input.request userId).entryKey
      · -- the new entry; other arguments with its key ask for the same page
        have heq : connection' = connection := by simpa [hkey, eq_comm] using hentry
        subst heq
        have he : ¬ input.EmptyBefore := fun he =>
          hfresh.page_ne_nil (page_of_emptyBefore hv he)
        rw [← entryKey_sent hv] at hkey
        have hpage := page_congr s.table userId hv' (isValid_sent hv) he'
          (fun h => he (emptyBefore_sent.mp h)) hkey
        rw [page_sent] at hpage
        exact ⟨hpage.trans_ne hfresh.page_ne_nil, hpage ▸ hfresh.edges⟩
      · apply hf input' connection' hv' he'
        simpa [hkey] using hentry
    · obtain rfl := Option.some.inj h
      exact hf
  | expire =>
    obtain rfl := Option.some.inj h
    exact iff_of_true (fun _ _ _ _ hconnection => by cases hconnection) trivial

/-- The entries are up to date in every state of a run exactly if each `Create` leaves the pages
    in the hash as they are. -/
theorem allFresh_iff {table : UrlTable} :
    Run (step env shardId userId) (fun s _ => AllFresh env shardId userId s)
        ⟨table, fun _ => none⟩ es t ∧ AllFresh env shardId userId t ↔
      Run (step env shardId userId) (LeavesPages userId) ⟨table, fun _ => none⟩ es t :=
  Run.everywhere_iff (fun _ => True) trivial
    (fun _ _ _ _ hconnection => by cases hconnection) (fun _ _ _ _ _ => trivial)
    fun _ _ _ _ hf h => allFresh_step hf h

/-! ## The user's reads -/

/-- The pages in the hash stay as they are, and no entry is found for an empty `Before`. -/
def KeepsPages (userId : ℤ) (s : State) (e : Event) : Prop :=
  LeavesPages userId s e ∧
    ∀ input clock, e = .getByUserId input clock → input.EmptyBefore → s.hash input.entryKey = none

/-- If the call is answered from the hash, the answer lists what the backend would list. -/
def AnswersCurrent (env : Globalization) (shardId userId : ℤ) (s : State) (e : Event) : Prop :=
  ∀ input clock connection, e = .getByUserId input clock → input.IsValid →
    s.hash input.entryKey = some connection →
    (s.backend env shardId).Answers userId input connection

/-- **A user reads his own writes.** -/
theorem reads_own_writes {table : UrlTable}
    (h : Run (step env shardId userId) (KeepsPages userId) ⟨table, fun _ => none⟩ es t) :
    Run (step env shardId userId) (AnswersCurrent env shardId userId) ⟨table, fun _ => none⟩ es t := by
  have hfresh : ∀ {es : List Event} {s : State},
      Run (step env shardId userId) (KeepsPages userId) ⟨table, fun _ => none⟩ es s →
        AllFresh env shardId userId s := by
    intro es s h
    exact (allFresh_iff.mpr (h.mono fun _ _ hk => hk.1)).2
  induction h with
  | nil => exact .nil
  | snoc hrun hk hstep ih =>
    apply ih.snoc _ hstep
    intro input clock connection he hv hentry
    have hbefore : ¬ input.EmptyBefore := by
      intro hbefore
      rw [hk.2 input clock he hbefore] at hentry
      cases hentry
    exact (hfresh hrun input connection hv hbefore hentry).answers hv

/-! ## The first page of a user -/

/-- A shard without URLs. -/
def noUrls : UrlTable := ⟨[], by simp, by simp, by simp⟩

/-- The first ten URLs. -/
def firstTen : GetUrlsInput := ⟨some 10, none, none, none⟩

/-- User 7 creates a URL. -/
def oneUrl : UrlTable := noUrls.add (newUrl 7 1 "https://example.com/1" 0) (by decide)

/-- And another one. -/
def twoUrls : UrlTable := oneUrl.add (newUrl 7 2 "https://example.com/2" 1000) (by decide)

/-- He changes the first one. -/
def changedUrl : UrlTable := oneUrl.update 1 7 "https://example.com/3" 2000 (by decide)

theorem length_page_firstTen (table : UrlTable) (userId : ℤ) :
    (table.page userId firstTen).length =
      min 10 (table.rows.filter fun url => url.userId = userId).length := by
  have hpage : table.page userId firstTen = (table.fetched userId true 11 none).take 10 := rfl
  have hlen : (table.fetched userId true 11 none).length =
      ((table.listing userId true).take 11).length := by
    rw [UrlTable.fetched, (fetch_perm _ _ _ _ _).length_eq, Option.map_none, past_none]
  rw [hpage, List.length_take, hlen, List.length_take, (table.listing_perm userId true).length_eq]
  omega

theorem converts_newUrl (id : ℤ) (destinationUrl : String) (now : ℤ) (table : UrlTable)
    (hid : (ShortId.toString ⟨1, id⟩).Returns) :
    Backend.Converts ⟨.invariantMode, 1, table⟩ (newUrl 7 id destinationUrl now) :=
  (convert_returns_iff_rows _ _ _ _).mpr ⟨hid, by simp [newUrl]⟩

/-- The first page can be computed if the user has URLs, and all URLs can be converted. -/
theorem firstTen_returns (table : UrlTable) (clock : Url → ℤ)
    (hne : (table.rows.filter fun url => url.userId = 7) ≠ [])
    (hconverts : ∀ url ∈ table.rows, Backend.Converts ⟨.invariantMode, 1, table⟩ url) :
    (Backend.connection ⟨.invariantMode, 1, table⟩ clock (firstTen.request 7)).Returns := by
  apply connection_returns clock (by decide)
  · intro hnil
    have hlen := length_page_firstTen table 7
    rw [show table.page 7 firstTen = [] from hnil] at hlen
    have := List.length_pos_iff.mpr hne
    simp only [List.length_nil] at hlen
    omega
  · exact fun url hurl => hconverts url (UrlTable.mem_rows_of_page hurl)

/-- What a clock shows after these changes. -/
def later (_ : Url) : ℤ := 3000

/-- The hash after the first page of `table` was stored. -/
def withFirstTen (table : UrlTable) (connection : Connection UrlStats) : State where
  table := table
  hash := Function.update (fun _ => none) firstTen.entryKey (some connection)

theorem step_firstTen {table : UrlTable} {clock : Url → ℤ} {connection : Connection UrlStats}
    (h : Backend.connection ⟨.invariantMode, 1, table⟩ clock (firstTen.request 7) = .ret connection) :
    step .invariantMode 1 7 ⟨table, fun _ => none⟩ (.getByUserId firstTen clock) =
      some (withFirstTen table connection) := by
  have hv : firstTen.IsValid := by decide
  simp only [step, if_pos hv, State.backend, h]
  rfl

theorem step_firstTen_hit (table : UrlTable) (clock : Url → ℤ) (connection : Connection UrlStats) :
    step .invariantMode 1 7 (withFirstTen table connection) (.getByUserId firstTen clock) =
      some (withFirstTen table connection) := by
  have hv : firstTen.IsValid := by decide
  have hhit : (withFirstTen table connection).hash firstTen.entryKey = some connection := by
    simp [withFirstTen]
  simp only [step, if_pos hv, hhit]

theorem keepsPages_firstTen (s : State) (clock : Url → ℤ) :
    KeepsPages 7 s (.getByUserId firstTen clock) := by
  refine ⟨trivial, ?_⟩
  intro input clock' he hbefore
  obtain ⟨rfl, -⟩ := Event.getByUserId.inj he
  exact absurd rfl hbefore.1

/-- He creates a URL, looks at the list, changes the URL, and looks twice. -/
theorem reads_own_writes_changedUrl :
    ∃ t, t.hash firstTen.entryKey ≠ none ∧
      Run (step .invariantMode 1 7) (AnswersCurrent .invariantMode 1 7) ⟨noUrls, fun _ => none⟩
        [.create 1 "https://example.com/1" 0, .getByUserId firstTen later,
          .update 1 "https://example.com/3" 2000, .getByUserId firstTen later,
          .getByUserId firstTen later] t := by
  have hid : (ShortId.toString ⟨1, 1⟩).Returns := by decide +kernel
  obtain ⟨connection, hconnection⟩ := firstTen_returns oneUrl later (by decide)
    (by
      intro url hurl
      obtain rfl := List.mem_singleton.mp hurl
      exact converts_newUrl _ _ _ _ hid)
  obtain ⟨changed, hchanged⟩ := firstTen_returns changedUrl later (by decide)
    (by
      intro url hurl
      obtain rfl := List.mem_singleton.mp hurl
      exact converts_newUrl 1 "https://example.com/3" 2000 _ hid)
  refine ⟨withFirstTen changedUrl changed, ?_, reads_own_writes ?_⟩
  · simp [withFirstTen]
  · have hcreate : KeepsPages 7 ⟨noUrls, fun _ => none⟩ (.create 1 "https://example.com/1" 0) := by
      refine ⟨fun _ _ _ hentry => absurd rfl hentry, ?_⟩
      intro input clock he
      cases he
    have hupdate : KeepsPages 7 (withFirstTen oneUrl connection)
        (.update 1 "https://example.com/3" 2000) := by
      refine ⟨trivial, ?_⟩
      intro input clock he
      cases he
    exact (((((Run.nil.snoc hcreate rfl).snoc (keepsPages_firstTen _ _) (step_firstTen hconnection)).snoc
      hupdate rfl).snoc (keepsPages_firstTen _ _) (step_firstTen hchanged)).snoc
        (keepsPages_firstTen _ _) (step_firstTen_hit _ _ _))

/-- **A new URL is hidden.** He creates a URL, looks at the list, creates another one, and
    looks again. -/
theorem create_hidden :
    ∃ t connection reply,
      Run (step .invariantMode 1 7) always ⟨noUrls, fun _ => none⟩
        [.create 1 "https://example.com/1" 0, .getByUserId firstTen later,
          .create 2 "https://example.com/2" 1000] t ∧
      firstTen.IsValid ∧ t.hash firstTen.entryKey = some connection ∧
      (t.backend .invariantMode 1).getByUserId later (firstTen.request 7) = .ret reply ∧
      listed connection.serialize ≠ listed reply := by
  have hvalid : firstTen.IsValid := by decide
  obtain ⟨connection, hconnection⟩ := firstTen_returns oneUrl later (by decide)
    (by
      intro url hurl
      obtain rfl := List.mem_singleton.mp hurl
      exact converts_newUrl _ _ _ _ (by decide +kernel))
  obtain ⟨both, hboth⟩ := firstTen_returns twoUrls later (by decide)
    (by
      intro url hurl
      rcases List.mem_pair.mp hurl with rfl | rfl
      · exact converts_newUrl _ _ _ _ (by decide +kernel)
      · exact converts_newUrl _ _ _ _ (by decide +kernel))
  refine ⟨{ withFirstTen oneUrl connection with table := twoUrls }, connection, both.serialize, ?_,
    hvalid, by simp [withFirstTen], ?_, ?_⟩
  · exact ((Run.nil.snoc trivial rfl).snoc trivial (step_firstTen hconnection)).snoc trivial rfl
  · rw [getByUserId_eq_serialize]
    exact congrArg (Connection.serialize <$> ·) hboth
  · -- the stored page has one edge, the reply has two
    intro heq
    have hone := (fresh_of_connection hvalid hconnection).edges.length_eq
    have htwo := (fresh_of_connection hvalid hboth).edges.length_eq
    have hlen := congrArg List.length heq
    rw [listed, listed, List.length_map, List.length_map, ← hone, ← htwo] at hlen
    simp only [length_page_firstTen] at hlen
    exact absurd hlen (by decide)

end UserHash

end Shortener.Urls
