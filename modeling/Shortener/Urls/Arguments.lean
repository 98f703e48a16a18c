import Shortener.Urls.PageWalk

/-!
# Arguments of a list of URLs

What a client can ask for with `GetByUserId` of a frontend
(`Shortener.FrontendShared/Services/UrlService.cs`, lines 140–204), the validator of these
arguments, and the entry of the cache that belongs to them.

* `entryKey_inj`: valid arguments with the same entry key differ in nothing but null and
  empty texts.
* `fresh_of_connection`, `Backend.Fresh.answers`: what the backend stores for a page holds the
  rows of the page, and as long as it does it is a correct answer.
-/

namespace Shortener.Urls

open Shortener.Common Shortener.DotNet Shortener.Codec Shortener.Stats

/-! ## Arguments -/

/-- `GetUrlsInput`. -/
structure GetUrlsInput where
  first : Option ℤ
  after : Option String
  last : Option ℤ
  before : Option String
  deriving DecidableEq, Repr

/-- `IsValidCursor`. -/
def IsValidCursor (cursor : String) : Prop := (parseCursor cursor).Returns

instance : DecidablePred IsValidCursor := fun cursor =>
  inferInstanceAs (Decidable (parseCursor cursor).Returns)

/-- The rules for `After`. -/
def GetUrlsInput.AfterRule (input : GetUrlsInput) : Prop :=
  ∀ after ∈ input.after, input.first ≠ none ∧ notEmpty after ∧ IsValidCursor after

/-- `GetUrlsValidator`. The rules for `After` are there twice, `Before` has none. -/
def GetUrlsInput.IsValid (input : GetUrlsInput) : Prop :=
  (∀ first ∈ input.first, (1 ≤ first ∧ first ≤ maxUrlsPageSize) ∧
    input.last = none ∧ input.before = none) ∧
  input.AfterRule ∧
  (∀ last ∈ input.last, (1 ≤ last ∧ last ≤ maxUrlsPageSize) ∧
    input.first = none ∧ input.after = none) ∧
  input.AfterRule

instance (input : GetUrlsInput) : Decidable input.AfterRule := by
  unfold GetUrlsInput.AfterRule
  infer_instance

instance (input : GetUrlsInput) : Decidable input.IsValid := by
  unfold GetUrlsInput.IsValid
  infer_instance

/-- `GetPaginationEntryKey`; null is printed as the empty text. -/
def getPaginationEntryKey (first : Option ℤ) (after : Option String) (last : Option ℤ)
    (before : Option String) : String :=
  (first.map toString).getD "" ++ "-" ++ after.getD "" ++ "-" ++ (last.map toString).getD "" ++
    "-" ++ before.getD ""

/-- The entry a frontend looks for. -/
def GetUrlsInput.entryKey (input : GetUrlsInput) : String :=
  getPaginationEntryKey input.first input.after input.last input.before

/-- The request a frontend sends if there is no entry. -/
def GetUrlsInput.request (userId : ℤ) (input : GetUrlsInput) : GetUrlsByUserIdRequest :=
  match input.first, input.last with
  | some first, _ => ⟨userId, some first, input.after, none, none⟩
  | none, some last => ⟨userId, none, none, some last, input.before⟩
  | none, none => ⟨userId, none, none, none, none⟩

/-- The entry under which the backend stores the page. -/
def GetUrlsByUserIdRequest.entryKey (request : GetUrlsByUserIdRequest) : String :=
  getPaginationEntryKey request.first (request.first.bind fun _ => request.after)
    request.last (request.last.bind fun _ => request.before)

/-! ## The page of the arguments -/

/-- The pages start with the URL that was updated last. -/
def GetUrlsInput.latestFirst (input : GetUrlsInput) : Bool := input.first.isSome || input.last.isNone

/-- How many URLs are asked for. -/
def GetUrlsInput.pageSize (input : GetUrlsInput) : ℕ :=
  ((input.first.or input.last).getD maxUrlsPageSize).toNat

/-- The cursor that the query uses. -/
def GetUrlsInput.cursor (input : GetUrlsInput) : Option String :=
  match input.first, input.last with
  | some _, _ => input.after
  | none, some _ => input.before
  | none, none => none

/-- The rows of the page that the arguments ask for. -/
def UrlTable.page (table : UrlTable) (userId : ℤ) (input : GetUrlsInput) : List Url :=
  match parseCursor? input.cursor with
  | .ret cursor =>
    (table.fetched userId input.latestFirst (input.pageSize + 1) cursor).take input.pageSize
  | _ => []

section

variable {backend : Backend} {userId : ℤ} {clock : Url → ℤ} {input input' : GetUrlsInput}

theorem pageSize_of_valid (hv : input.IsValid) : 1 ≤ input.pageSize ∧ input.pageSize ≤ 50 := by
  obtain ⟨hfirst, -, hlast, -⟩ := hv
  unfold GetUrlsInput.pageSize maxUrlsPageSize at *
  cases hf : input.first with
  | some first =>
    have := (hfirst first hf).1
    simp only [Option.some_or, Option.getD_some]
    omega
  | none =>
    cases hl : input.last with
    | some last =>
      have := (hlast last hl).1
      simp only [Option.none_or, Option.getD_some]
      omega
    | none => simp

/-- Each call asks for a page in one direction. -/
theorem getByUserId_request (hv : input.IsValid) :
    backend.getByUserId clock (input.request userId) =
      backend.getByUserId clock
        (pageRequest input.latestFirst userId input.pageSize input.cursor) := by
  obtain ⟨hfirst, -, hlast, -⟩ := hv
  unfold GetUrlsInput.request GetUrlsInput.latestFirst GetUrlsInput.pageSize GetUrlsInput.cursor
  cases hf : input.first with
  | some first =>
    have := (hfirst first hf).1
    have hn : ((first.toNat : ℕ) : ℤ) = first := by omega
    simp [pageRequest, hn]
  | none =>
    cases hl : input.last with
    | some last =>
      have := (hlast last hl).1
      have hn : ((last.toNat : ℕ) : ℤ) = last := by omega
      simp [pageRequest, hn]
    | none => rfl

/-! ## Entry keys -/

theorem toString_int_ne {n : ℤ} (hn : 1 ≤ n) :
    (toString n).toList ≠ [] ∧ '-' ∉ (toString n).toList := by
  rw [toList_toString, if_neg (by omega)]
  refine ⟨Nat.toDigits_ne_nil, ?_⟩
  intro h
  exact absurd (isDigit_of_mem_toDigits _ h) (by decide)

/-- The text of a number from 1 on or of null tells which it is. -/
theorem numberText_inj {a b : Option ℤ} (ha : ∀ n ∈ a, 1 ≤ n) (hb : ∀ n ∈ b, 1 ≤ n)
    (h : ((a.map toString).getD "").toList = ((b.map toString).getD "").toList) : a = b := by
  cases a with
  | none =>
    cases b with
    | none => rfl
    | some n => exact absurd h.symm (toString_int_ne (hb n rfl)).1
  | some n =>
    cases b with
    | none => exact absurd h (toString_int_ne (ha n rfl)).1
    | some m =>
      have hn := tryParse_toString n
      have hm := tryParse_toString m
      simp only [Option.map_some, Option.getD_some] at h
      rw [h] at hn
      exact hn.symm.trans hm

theorem not_mem_numberText {a : Option ℤ} (ha : ∀ n ∈ a, 1 ≤ n) :
    '-' ∉ ((a.map toString).getD "").toList := by
  cases a with
  | none => simp
  | some n => exact (toString_int_ne (ha n rfl)).2

theorem toList_entryKey (first : Option ℤ) (after : Option String) (last : Option ℤ)
    (before : Option String) :
    (getPaginationEntryKey first after last before).toList =
      ((first.map toString).getD "").toList ++ '-' :: ((after.getD "").toList ++
        '-' :: (((last.map toString).getD "").toList ++ '-' :: (before.getD "").toList)) := by
  simp [getPaginationEntryKey]

/-- Valid arguments with the same entry key differ in nothing but null and empty texts. -/
theorem entryKey_inj (hv : input.IsValid) (hv' : input'.IsValid)
    (h : input.entryKey = input'.entryKey) :
    input.first = input'.first ∧ input.after.getD "" = input'.after.getD "" ∧
      input.last = input'.last ∧ input.before.getD "" = input'.before.getD "" := by
  obtain ⟨hfirst, hafter, hlast, -⟩ := hv
  obtain ⟨hfirst', hafter', hlast', -⟩ := hv'
  have hkeys := congrArg String.toList h
  rw [GetUrlsInput.entryKey, GetUrlsInput.entryKey, toList_entryKey, toList_entryKey] at hkeys
  obtain ⟨hkfirst, hkeys⟩ := append_delimiter_inj
    (not_mem_numberText fun n hn => (hfirst n hn).1.1)
    (not_mem_numberText fun n hn => (hfirst' n hn).1.1) hkeys
  have heq := numberText_inj (fun n hn => (hfirst n hn).1.1) (fun n hn => (hfirst' n hn).1.1) hkfirst
  refine ⟨heq, ?_⟩
  cases hf : input.first with
  | some first =>
    -- a page forwards: both keys end in two dashes
    obtain ⟨-, hl, hb⟩ := hfirst first hf
    obtain ⟨-, hl', hb'⟩ := hfirst' first (heq ▸ hf)
    rw [hl, hb, hl', hb', List.append_left_inj] at hkeys
    exact ⟨String.toList_inj.mp hkeys, by rw [hl, hl'], by rw [hb, hb']⟩
  | none =>
    have ha : input.after = none := by
      by_contra hne
      obtain ⟨after, hsome⟩ := Option.ne_none_iff_exists'.mp hne
      exact (hafter after hsome).1 hf
    have ha' : input'.after = none := by
      by_contra hne
      obtain ⟨after, hsome⟩ := Option.ne_none_iff_exists'.mp hne
      exact (hafter' after hsome).1 (heq ▸ hf)
    rw [ha, ha', List.append_right_inj, List.cons.injEq] at hkeys
    obtain ⟨hklast, hkbefore⟩ := append_delimiter_inj
      (not_mem_numberText fun n hn => (hlast n hn).1.1)
      (not_mem_numberText fun n hn => (hlast' n hn).1.1) hkeys.2
    exact ⟨by rw [ha, ha'], numberText_inj (fun n hn => (hlast n hn).1.1)
      (fun n hn => (hlast' n hn).1.1) hklast, String.toList_inj.mp hkbefore⟩

/-! ## Answers -/

/-- `GetByUserId` up to the connection, which is stored and then sent. -/
def Backend.connection (backend : Backend) (clock : Url → ℤ) (request : GetUrlsByUserIdRequest) :
    Exec (Connection UrlStats) := do
  let (limit, cursor, latestFirst) ← request.query
  match ← backend.table.getByUserId request.userId limit cursor latestFirst with
  | none => .throw (notFound "urls")
  | some urls =>
    let (pageSize, pageInfo) := request.page urls
    let edges ← backend.getUrlsEdge clock urls pageSize
    return Connection.mk pageInfo edges

theorem getByUserId_eq_serialize (backend : Backend) (clock : Url → ℤ)
    (request : GetUrlsByUserIdRequest) :
    backend.getByUserId clock request = Connection.serialize <$> backend.connection clock request := by
  unfold Backend.getByUserId Backend.connection
  rw [map_bind]
  congr 1
  funext query
  obtain ⟨limit, cursor, latestFirst⟩ := query
  rw [map_bind]
  dsimp only
  congr 1
  funext urls
  cases urls with
  | none => rfl
  | some urls => simp only [map_bind, map_pure]

/-- The links that a reply lists. -/
def listed (connection : Connection Grpc.UrlStats) : List (String × String) :=
  connection.edges.map fun edge => (edge.node.shortId, edge.node.destinationUrl)

/-- `connection` lists the links that the backend would list now. -/
def Backend.Answers (backend : Backend) (userId : ℤ) (input : GetUrlsInput)
    (connection : Connection UrlStats) : Prop :=
  ∀ clock, ∃ reply, backend.getByUserId clock (input.request userId) = .ret reply ∧
    listed connection.serialize = listed reply

/-- `connection` holds the edges of the page. -/
structure Backend.Fresh (backend : Backend) (userId : ℤ) (input : GetUrlsInput)
    (connection : Connection UrlStats) : Prop where
  page_ne_nil : backend.table.page userId input ≠ []
  edges : List.Forall₂ backend.EdgeOf (backend.table.page userId input) connection.serialize.edges

theorem Backend.EdgeOf.link_eq {url : Url} {edge edge' : Edge Grpc.UrlStats}
    (h : backend.EdgeOf url edge) (h' : backend.EdgeOf url edge') :
    (edge.node.shortId, edge.node.destinationUrl) =
      (edge'.node.shortId, edge'.node.destinationUrl) := by
  obtain ⟨now, stats, hstats, hnode⟩ := h.node
  obtain ⟨now', stats', hstats', hnode'⟩ := h'.node
  obtain ⟨hid, hurl, -⟩ := convert_eq_ret_iff.mp hstats
  obtain ⟨hid', hurl', -⟩ := convert_eq_ret_iff.mp hstats'
  rw [hid] at hid'
  rw [hnode, hnode']
  exact congrArg₂ Prod.mk (Exec.ret.inj hid') (hurl.trans hurl'.symm)

theorem listed_congr {urls : List Url} {connection connection' : Connection Grpc.UrlStats}
    (h : List.Forall₂ backend.EdgeOf urls connection.edges)
    (h' : List.Forall₂ backend.EdgeOf urls connection'.edges) :
    listed connection = listed connection' := by
  have hmap : ∀ {edges : List (Edge Grpc.UrlStats)}, List.Forall₂ backend.EdgeOf urls edges →
      List.Forall₂ (fun url link => ∃ edge, backend.EdgeOf url edge ∧
        link = (edge.node.shortId, edge.node.destinationUrl)) urls
        (edges.map fun edge => (edge.node.shortId, edge.node.destinationUrl)) := by
    intro edges h
    rw [List.forall₂_map_right_iff]
    exact h.imp fun _ edge hedge => ⟨edge, hedge, rfl⟩
  have hunique : Relator.RightUnique fun (url : Url) (link : String × String) =>
      ∃ edge, backend.EdgeOf url edge ∧ link = (edge.node.shortId, edge.node.destinationUrl) := by
    intro url link link' h h'
    obtain ⟨edge, hedge, rfl⟩ := h
    obtain ⟨edge', hedge', rfl⟩ := h'
    exact hedge.link_eq hedge'
  exact List.right_unique_forall₂' hunique (hmap h) (hmap h')

/-- A page is empty only if there are no rows beyond its cursor. -/
theorem take_fetched_eq_nil_iff {table : UrlTable} {latestFirst : Bool} {n : ℕ}
    {cursor : Option (ℤ × ℤ)} (hn : n ≠ 0) :
    (table.fetched userId latestFirst (n + 1) cursor).take n = [] ↔
      table.beyond userId latestFirst cursor = [] := by
  rw [List.take_eq_nil_iff, UrlTable.fetched_eq_nil_iff (Nat.succ_ne_zero n)]
  exact or_iff_right hn

/-- A page that is not empty has a cursor that can be parsed. -/
theorem page_eq (h : backend.table.page userId input ≠ []) :
    ∃ parsed, parseCursor? input.cursor = .ret parsed ∧
      backend.table.page userId input = (backend.table.fetched userId input.latestFirst
        (input.pageSize + 1) parsed).take input.pageSize := by
  unfold UrlTable.page at h ⊢
  split at h
  · rename_i parsed hparse
    exact ⟨parsed, hparse, rfl⟩
  · exact absurd rfl h

/-- A reply needs a cursor that can be parsed. -/
theorem parseCursor?_of_reply {latestFirst : Bool} {n : ℕ} {cursor : Option String}
    {reply : Connection Grpc.UrlStats}
    (h : backend.getByUserId clock (pageRequest latestFirst userId n cursor) = .ret reply) :
    ∃ parsed, parseCursor? cursor = .ret parsed := by
  obtain ⟨query, hquery, -⟩ := Exec.bind_eq_ret_iff.mp h
  cases latestFirst
  · obtain ⟨parsed, hparse, -⟩ := Exec.bind_eq_ret_iff.mp hquery
    exact ⟨parsed, hparse⟩
  · obtain ⟨parsed, hparse, -⟩ := Exec.bind_eq_ret_iff.mp hquery
    exact ⟨parsed, hparse⟩

/-- The backend stores a page that is up to date. -/
theorem fresh_of_connection {connection : Connection UrlStats} (hv : input.IsValid)
    (h : backend.connection clock (input.request userId) = .ret connection) :
    backend.Fresh userId input connection := by
  have hreply : backend.getByUserId clock
      (pageRequest input.latestFirst userId input.pageSize input.cursor) =
        .ret connection.serialize := by
    rw [← getByUserId_request hv, getByUserId_eq_serialize, h]
    rfl
  have hn := pageSize_of_valid hv
  obtain ⟨parsed, hparse⟩ := parseCursor?_of_reply hreply
  have hpage : backend.table.page userId input = (backend.table.fetched userId input.latestFirst
      (input.pageSize + 1) parsed).take input.pageSize := by
    rw [UrlTable.page, hparse]
  have hne : backend.table.beyond userId input.latestFirst parsed ≠ [] := by
    intro hnil
    rw [getByUserId_empty backend hn hparse hnil] at hreply
    cases hreply
  refine ⟨?_, ?_⟩
  · rw [hpage, ne_eq, take_fetched_eq_nil_iff (Nat.ne_of_gt hn.1)]
    exact hne
  · rw [hpage]
    exact Backend.reply_edges hn hparse hreply

/-- A page whose rows can be converted is computed. -/
theorem connection_returns (clock : Url → ℤ) (hv : input.IsValid)
    (hne : backend.table.page userId input ≠ [])
    (hconverts : ∀ url ∈ backend.table.page userId input, backend.Converts url) :
    (backend.connection clock (input.request userId)).Returns := by
  obtain ⟨parsed, hparse, hpage⟩ := page_eq hne
  rw [hpage] at hne hconverts
  have hn := pageSize_of_valid hv
  rw [ne_eq, take_fetched_eq_nil_iff (Nat.ne_of_gt hn.1)] at hne
  obtain ⟨reply, hreply⟩ := Backend.reply_returns clock hn hparse hne hconverts
  rw [← getByUserId_request hv, getByUserId_eq_serialize] at hreply
  obtain ⟨connection, hconnection, -⟩ := Exec.map_eq_ret_iff.mp hreply
  exact ⟨connection, hconnection⟩

theorem Backend.Fresh.answers {connection : Connection UrlStats} (hv : input.IsValid)
    (h : backend.Fresh userId input connection) : backend.Answers userId input connection := by
  intro clock
  have hconverts := h.edges.imp fun url edge hedge => And.intro hedge.converts hedge
  obtain ⟨connection', hconnection'⟩ := connection_returns clock hv h.page_ne_nil
    ((List.forall₂_and_left _ _).mp hconverts).1
  refine ⟨connection'.serialize, ?_, listed_congr h.edges (fresh_of_connection hv hconnection').edges⟩
  rw [getByUserId_eq_serialize, hconnection']
  rfl

/-! ## Pages and entries -/

/-- `Before` is the empty text, which is no cursor but has the entry key of null. -/
def GetUrlsInput.EmptyBefore (input : GetUrlsInput) : Prop :=
  input.last ≠ none ∧ input.before = some ""

instance (input : GetUrlsInput) : Decidable input.EmptyBefore := inferInstanceAs (Decidable (_ ∧ _))

theorem not_isValidCursor_empty : ¬ IsValidCursor "" := by
  intro h
  obtain ⟨cursor, hcursor⟩ := h
  cases hcursor

theorem eq_of_getD_eq {a b : Option String} (ha : a ≠ some "") (hb : b ≠ some "")
    (h : a.getD "" = b.getD "") : a = b := by
  cases a <;> cases b <;> simp_all

/-- Arguments with the same entry key ask for the same page. -/
theorem page_congr (table : UrlTable) (userId : ℤ) (hv : input.IsValid) (hv' : input'.IsValid)
    (he : ¬ input.EmptyBefore) (he' : ¬ input'.EmptyBefore)
    (h : input.entryKey = input'.entryKey) : table.page userId input = table.page userId input' := by
  obtain ⟨hfirst, hafter, hlast, hbefore⟩ := entryKey_inj hv hv' h
  have hcursor : input.cursor = input'.cursor := by
    unfold GetUrlsInput.cursor
    rw [← hfirst, ← hlast]
    cases hf : input.first with
    | some first =>
      have hne : ∀ {x : GetUrlsInput}, x.IsValid → x.after ≠ some "" := by
        intro x hx ha
        exact not_isValidCursor_empty (hx.2.1 "" ha).2.2
      exact eq_of_getD_eq (hne hv) (hne hv') hafter
    | none =>
      cases hl : input.last with
      | some last =>
        have hl' : input'.last = some last := hlast ▸ hl
        exact eq_of_getD_eq (fun hb => he ⟨by simp [hl], hb⟩) (fun hb => he' ⟨by simp [hl'], hb⟩)
          hbefore
      | none => rfl
  unfold UrlTable.page GetUrlsInput.latestFirst GetUrlsInput.pageSize
  rw [hcursor, hfirst, hlast]

/-- The arguments that reach the backend. -/
def GetUrlsInput.sent (input : GetUrlsInput) : GetUrlsInput :=
  { input with before := input.last.bind fun _ => input.before }

theorem isValid_sent (hv : input.IsValid) : input.sent.IsValid := by
  obtain ⟨hfirst, hafter, hlast, hafter'⟩ := hv
  refine ⟨?_, hafter, hlast, hafter'⟩
  intro first hf
  obtain ⟨hn, hl, hb⟩ := hfirst first hf
  exact ⟨hn, hl, by simp [GetUrlsInput.sent, hl]⟩

theorem entryKey_sent (hv : input.IsValid) : input.sent.entryKey = (input.request userId).entryKey := by
  obtain ⟨hfirst, hafter, -, -⟩ := hv
  unfold GetUrlsInput.sent GetUrlsInput.entryKey GetUrlsInput.request
  cases hf : input.first with
  | some first =>
    obtain ⟨-, hl, -⟩ := hfirst first hf
    simp [GetUrlsByUserIdRequest.entryKey, hl]
  | none =>
    have ha : input.after = none := by
      by_contra hne
      obtain ⟨after, hsome⟩ := Option.ne_none_iff_exists'.mp hne
      exact (hafter after hsome).1 hf
    cases input.last <;> simp [GetUrlsByUserIdRequest.entryKey, ha]

/-- An empty cursor does not reach a page. -/
theorem page_of_emptyBefore {table : UrlTable} (hv : input.IsValid) (he : input.EmptyBefore) :
    table.page userId input = [] := by
  obtain ⟨hlast, hbefore⟩ := he
  obtain ⟨last, hl⟩ := Option.ne_none_iff_exists'.mp hlast
  have hf := (hv.2.2.1 last hl).2.1
  have hcursor : input.cursor = some "" := by
    simp [GetUrlsInput.cursor, hf, hl, hbefore]
  rw [UrlTable.page, hcursor]
  rfl

theorem emptyBefore_sent : input.sent.EmptyBefore ↔ input.EmptyBefore := by
  unfold GetUrlsInput.EmptyBefore GetUrlsInput.sent
  cases input.last <;> simp

theorem page_sent {table : UrlTable} : table.page userId input.sent = table.page userId input := by
  have hcursor : input.sent.cursor = input.cursor := by
    unfold GetUrlsInput.cursor GetUrlsInput.sent
    cases input.first <;> cases input.last <;> rfl
  unfold UrlTable.page
  rw [hcursor]
  rfl

end

end Shortener.Urls
