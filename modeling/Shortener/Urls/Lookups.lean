import Shortener.Links.ShortIdRule
import Shortener.Urls.DataLoader

/-!
# Looking up statistics

The way of the statistics of a link to a client: `GetById` and `GetByIds` of the frontends
(`Shortener.FrontendShared/Services/UrlService.cs`, lines 61–138), the entries `Url-Stats:` of
Redis, `GetById` and `GetByIds` of the shards with `UpdateUrlStatsCacheInBackground`
(`Shortener.GrpcBackend/Services/UrlService.cs`, lines 110–154 and 324–330) and
`GetByUrlId` and `GetByUrlIds` (`Shortener.GrpcBackend/Repositories/UrlRepository.cs`, lines
71–108), beside the statements that change links and count visits. A request may reach its
shard again, the work items run in any order, and any call may be lost with its process.

* `getById_eq`, `getByIds_eq`: what a frontend does before its request and after the reply.
* `step_cases`: the steps, case by case.
* `Query.lookUp_spec`, `Query.finish_spec`: where a frontend has its statistics from.
-/

namespace Shortener.Urls.Lookups

open Shortener.Common Shortener.DotNet Shortener.Codec Shortener.Links Shortener.Stats
  Shortener.Urls.Batch

/-! ## State -/

/-- `TimeSpan.FromMinutes(15)` in milliseconds, the unit of the clock. -/
def statsDuration : ℕ := 900000

/-- The `Instant` at a time. -/
def instant (time : ℕ) : ℤ := time * 10 ^ 6

/-- The links of a shard. -/
structure Shard where
  rows : List Url
  /-- the ids that rows have been given -/
  ids : List ℤ

/-- An entry of Redis; it is there before `deadline`. -/
structure Entry where
  data : Json
  deadline : ℕ

/-- The arguments of `GetById` or `GetByIds` of a frontend. -/
inductive Query
  | getById (id : ShortId)
  | getByIds (ids : List ShortId)

/-- The links that a client asks for. -/
def Query.ids : Query → List ShortId
  | .getById id => [id]
  | .getByIds ids => ids

/-- What it returns. -/
inductive Reply
  | url (url : Dtos.UrlStats)
  | urls (urls : ByShortUrl)

/-- The reply has these statistics. -/
def Reply.Has (url : Dtos.UrlStats) : Reply → Prop
  | .url url' => url' = url
  | .urls found => ∃ shortUrl, found.lookup shortUrl = some url

/-- A request to a shard, and what the frontend has found in the cache. -/
structure Request where
  shardId : ℤ
  urls : ByShortUrl
  shortIds : List String

/-- How far a frontend has come. -/
inductive Stage
  /-- before it reads the cache -/
  | looking
  | asking (request : Request)
  | answered (reply : Reply)
  | failed

/-- A query of a client, and how far the frontend has come with it. -/
structure Lookup where
  query : Query
  timestamp : ℕ
  stage : Stage

/-- A call of `GetById` or `GetByIds` on a shard that has read its rows. -/
structure Call where
  lookup : ℕ
  shardId : ℤ
  /-- when it has read the rows -/
  readAt : ℕ
  /-- the rows that are not converted yet -/
  urls : List Url
  reply : List Grpc.UrlStats

/-- The work item of `UpdateUrlStatsCacheInBackground`. Only proofs use `readAt`, the time at
    which the row was read. -/
structure Task where
  key : String
  url : UrlStats
  readAt : ℕ

/-- The shards, the cache, the queries, and what is in progress. -/
structure State where
  shards : ℤ → Shard
  now : ℕ
  entries : String → Option Entry
  lookups : List Lookup
  calls : List Call
  tasks : List Task

/-- No links, no queries, and nothing cached. -/
def State.init : State := ⟨fun _ => ⟨[], []⟩, 0, fun _ => none, [], [], []⟩

/-! ## The frontend -/

/-- What `StringGetAsync` returns. -/
def State.cache (s : State) (key : String) : Option Json :=
  (s.entries key).bind fun entry => if s.now < entry.deadline then some entry.data else none

section

variable (service : ShortUrlService)

/-- `GetById` and `GetByIds` up to the request to a shard. -/
def Query.lookUp (cache : String → Option Json) : Query → Exec Stage
  | .getById id => do
    let key ← getUrlStatsKey id
    match ← readValue urlStatsContract.converter.read (cache key) with
    | some cachedUrl => do
      let url ← Dtos.UrlStats.ofStats service cachedUrl
      return .answered (.url url)
    | none => do
      let shortId ← id.toString
      return .asking ⟨id.range, ∅, [shortId]⟩
  | .getByIds ids =>
    match ids with
    | [] => .throw invalidIds
    | first :: _ =>
      if ids.any fun id => id.range ≠ first.range then .throw invalidIds
      else do
        let (urls, idsToQuery) ← Batch.lookUp service cache ids
        return if urls.keys.length = ids.length then .answered (.urls urls)
          else .asking ⟨first.range, urls, idsToQuery⟩

/-- `GetById` and `GetByIds` after the reply, of which that of `GetById` has one row. -/
def Query.finish (urls : ByShortUrl) : Query → List Grpc.UrlStats → Option (Exec Reply)
  | .getById _, [url] => some do
    let stats ← UrlStats.ofGrpc url
    let url ← Dtos.UrlStats.ofStats service stats.toObject
    return .url url
  | .getByIds _, reply => some do
    let urls ← reply.foldlM (addRow service) urls
    return .urls urls
  | _, _ => none

/-- The two parts of `GetById`. -/
theorem getById_eq (getByIdAsync : ℤ → String → Exec Grpc.UrlStats) (cache : String → Option Json)
    (id : ShortId) :
    (Reply.url <$> getById service getByIdAsync cache id) =
      (Query.getById id).lookUp service cache >>= fun
        | .answered reply => .ret reply
        | .asking request => do
          let reply ← getByIdAsync request.shardId (request.shortIds.headD "")
          ((Query.getById id).finish service request.urls [reply]).getD .diverge
        | _ => .diverge := by
  simp only [getById, Query.lookUp, Query.finish]
  cases getUrlStatsKey id with
  | throw e => rfl
  | diverge => rfl
  | ret key =>
    simp only [Exec.ret_bind]
    cases readValue urlStatsContract.converter.read (cache key) with
    | throw e => rfl
    | diverge => rfl
    | ret value =>
      cases value with
      | some cachedUrl =>
        simp only [Exec.ret_bind]
        cases Dtos.UrlStats.ofStats service cachedUrl <;> rfl
      | none =>
        simp only [Exec.ret_bind]
        cases id.toString with
        | throw e => rfl
        | diverge => rfl
        | ret shortId =>
          simp only [Exec.ret_bind, Exec.pure_eq, List.headD_cons, Option.getD_some, map_bind]
          rfl

/-- The two parts of `GetByIds`. -/
theorem getByIds_eq (getByIdsAsync : ℤ → List String → Exec (List Grpc.UrlStats))
    (cache : String → Option Json) (ids : List ShortId) :
    (Reply.urls <$> (getByIds service getByIdsAsync cache ids).outcome) =
      (Query.getByIds ids).lookUp service cache >>= fun
        | .answered reply => .ret reply
        | .asking request => do
          let reply ← getByIdsAsync request.shardId request.shortIds
          ((Query.getByIds ids).finish service request.urls reply).getD .diverge
        | _ => .diverge := by
  simp only [getByIds, Query.lookUp, Query.finish]
  cases ids with
  | nil => rfl
  | cons first rest =>
    dsimp only
    split_ifs with hrange
    · rfl
    · cases Batch.lookUp service cache (first :: rest) with
      | throw e => rfl
      | diverge => rfl
      | ret found =>
        obtain ⟨urls, idsToQuery⟩ := found
        simp only [Exec.ret_bind, Exec.pure_eq]
        split_ifs with hcount
        · rfl
        · simp only [Option.getD_some, map_bind]
          rfl

end

/-! ## The shard -/

/-- `GetByUrlId` and `GetByUrlIds`: the rows with these `indices`, if there is one. They come in
    any order, that of `ids`. -/
def Shard.getByUrlIds (shard : Shard) (indices ids : List ℤ) : Option (List Url) :=
  if ids ≠ [] ∧ ids.Perm ((shard.rows.filter fun url => url.id ∈ indices).map Url.id) then
    some (ids.filterMap fun id => shard.rows.find? fun url => url.id = id)
  else none

/-- A statement that changes links or counts visits. -/
inductive Statement
  /-- `Id` is the one from the sequence. -/
  | add (id userId : ℤ) (destinationUrl : String)
  | update (id userId : ℤ) (destinationUrl : String)
  | incrementVisit (id : ℤ)
  | delete (id userId : ℤ)
  /-- The user is deleted. -/
  | cascade (userId : ℤ)
  /-- A statement of `VisitRepository`, after which the link has these visits. -/
  | visit (id : ℤ) (visits : List Visit)

/-- The rows after a statement at the instant `now`. -/
def Statement.run (now : ℤ) (rows : List Url) : Statement → List Url
  | .add id userId destinationUrl => rows ++ [⟨id, destinationUrl, userId, 0, [], now⟩]
  | .update id userId destinationUrl => rows.map fun url =>
    if url.id = id ∧ url.userId = userId then
      { url with destinationUrl := destinationUrl, updatedAt := now }
    else url
  | .incrementVisit id => rows.map fun url =>
    if url.id = id then { url with totalViews := url.totalViews + 1, updatedAt := now } else url
  | .delete id userId => rows.filter fun url => ¬ (url.id = id ∧ url.userId = userId)
  | .cascade userId => rows.filter fun url => url.userId ≠ userId
  | .visit id visits => rows.map fun url => if url.id = id then { url with visits := visits } else url

/-- What is assumed of a statement: ids are given once, and counters stay `int`s. -/
def Shard.Allows (shard : Shard) : Statement → Prop
  | .add id _ _ => id ∉ shard.ids
  | .incrementVisit id => ∀ url ∈ shard.rows, url.id = id → url.totalViews + 1 < 2 ^ 31
  | _ => True

instance (shard : Shard) (statement : Statement) : Decidable (shard.Allows statement) := by
  unfold Shard.Allows
  split <;> infer_instance

/-- The id that a statement gives to a row. -/
def newIds : Statement → List ℤ
  | .add id _ _ => [id]
  | _ => []

/-- A statement runs. -/
def Shard.run (shard : Shard) (now : ℤ) (statement : Statement) : Shard where
  rows := statement.run now shard.rows
  ids := shard.ids ++ newIds statement

/-- The work item for a URL. -/
def updateUrlStatsCache (url : UrlStats) (readAt : ℕ) : Exec Task := do
  let id ← parseId url.shortId
  let key ← getUrlStatsKey id
  return ⟨key, url, readAt⟩

/-! ## Steps -/

/-- What can happen next. -/
inductive Event
  /-- A statement that changes links or counts visits runs on `shardId`. -/
  | statement (shardId : ℤ) (statement : Statement)
  | tick
  /-- A client asks for the statistics of one link. -/
  | getById (shortId : String)
  /-- A client asks for those of several links. -/
  | getByIds (shortIds : List String)
  /-- The frontend of lookup `q` reads the cache. -/
  | lookUp (q : ℕ)
  /-- The request of lookup `q` fails. -/
  | fail (q : ℕ)
  /-- The request of lookup `q` reaches its shard, which reads the rows in the order of `ids`. -/
  | read (q : ℕ) (ids : List ℤ)
  /-- Call `i` converts its next row and enqueues its work item. -/
  | convert (i : ℕ)
  /-- Call `i` has converted its rows and replies. -/
  | reply (i : ℕ)
  /-- Call `i` is lost. -/
  | lose (i : ℕ)
  /-- Work item `k` runs. -/
  | run (k : ℕ)
  /-- Work item `k` is lost. -/
  | drop (k : ℕ)
  /-- An entry is removed, by Redis or by a work item of `Update` or `Delete`. -/
  | remove (key : String)

/-- The frontend has come further with lookup `q`. -/
def State.setStage (s : State) (q : ℕ) (lookup : Lookup) (stage : Stage) : State :=
  { s with lookups := s.lookups.set q { lookup with stage := stage } }

/-- A client asks. -/
def State.addLookup (s : State) (query : Query) : State :=
  { s with lookups := s.lookups ++ [⟨query, s.now, .looking⟩] }

/-- The frontend goes on with what was returned, or with an exception. -/
def Stage.ofExec : Exec Stage → Stage
  | .ret stage => stage
  | _ => .failed

/-- A step of the system. -/
def step (env : Globalization) (service : ShortUrlService) (s : State) : Event → Option State
  | .statement shardId statement =>
    if (s.shards shardId).Allows statement then
      some { s with
        shards := Function.update s.shards shardId
          ((s.shards shardId).run (instant s.now) statement) }
    else none
  | .tick => some { s with now := s.now + 1 }
  | .getById shortId =>
    match parseId shortId with
    | .ret id => some (s.addLookup (.getById id))
    | _ => some s
  | .getByIds shortIds =>
    match shortIds.mapM parseId with
    | .ret ids => some (s.addLookup (.getByIds ids))
    | _ => some s
  | .lookUp q =>
    match s.lookups[q]? with
    | some lookup =>
      match lookup.stage with
      | .looking => some (s.setStage q lookup (.ofExec (lookup.query.lookUp service s.cache)))
      | _ => none
    | none => none
  | .fail q =>
    match s.lookups[q]? with
    | some lookup =>
      match lookup.stage with
      | .answered _ => none
      | _ => some (s.setStage q lookup .failed)
    | none => none
  | .read q ids =>
    match s.lookups[q]? with
    | some lookup =>
      match lookup.stage with
      | .asking request =>
        match request.shortIds.mapM parseId with
        | .ret shortIds =>
          ((s.shards request.shardId).getByUrlIds (shortIds.map ShortId.index) ids).map fun urls =>
            { s with calls := s.calls ++ [⟨q, request.shardId, s.now, urls, []⟩] }
        | _ => none
      | _ => none
    | none => none
  | .convert i =>
    match s.calls[i]? with
    | some call =>
      match call.urls with
      | url :: urls =>
        match convert env call.shardId (instant s.now) url with
        | .ret stats =>
          match updateUrlStatsCache stats call.readAt with
          | .ret task =>
            some { s with
              calls := s.calls.set i
                { call with urls := urls, reply := call.reply ++ [stats.serialize] }
              tasks := s.tasks ++ [task] }
          | _ => none
        | _ => none
      | [] => none
    | none => none
  | .reply i =>
    match s.calls[i]? with
    | some call =>
      match call.urls, s.lookups[call.lookup]? with
      | [], some lookup =>
        let s := { s with calls := s.calls.eraseIdx i }
        match lookup.stage with
        | .asking request =>
          (lookup.query.finish service request.urls call.reply).map fun reply =>
            s.setStage call.lookup lookup (.ofExec (Stage.answered <$> reply))
        -- nobody waits for the reply of a call that was made again
        | _ => some s
      | _, _ => none
    | none => none
  | .lose i => some { s with calls := s.calls.eraseIdx i }
  | .run k =>
    match s.tasks[k]? with
    | some task =>
      some { s with
        tasks := s.tasks.eraseIdx k
        entries := Function.update s.entries task.key
          (some ⟨urlStatsContract.serialize task.url.toObject, s.now + statsDuration⟩) }
    | none => none
  | .drop k => some { s with tasks := s.tasks.eraseIdx k }
  | .remove key => some { s with entries := Function.update s.entries key none }

/-! ## What a step does -/

variable {env : Globalization} {service : ShortUrlService} {s t : State} {e : Event}

/-- The steps, case by case. -/
inductive Steps (env : Globalization) (service : ShortUrlService) (s : State) :
    Event → State → Prop
  | statement {r : ℤ} {statement : Statement} : (s.shards r).Allows statement →
      Steps env service s (.statement r statement)
        { s with
          shards := Function.update s.shards r ((s.shards r).run (instant s.now) statement) }
  | tick : Steps env service s .tick { s with now := s.now + 1 }
  | getById {shortId : String} {id : ShortId} : parseId shortId = .ret id →
      Steps env service s (.getById shortId) (s.addLookup (.getById id))
  | getByIds {shortIds : List String} {ids : List ShortId} :
      shortIds.mapM parseId = .ret ids →
      Steps env service s (.getByIds shortIds) (s.addLookup (.getByIds ids))
  | refused (e : Event) : Steps env service s e s
  | lookUp {q : ℕ} {lookup : Lookup} : s.lookups[q]? = some lookup → lookup.stage = .looking →
      Steps env service s (.lookUp q)
        (s.setStage q lookup (.ofExec (lookup.query.lookUp service s.cache)))
  | fail {q : ℕ} {lookup : Lookup} : s.lookups[q]? = some lookup →
      Steps env service s (.fail q) (s.setStage q lookup .failed)
  | read {q : ℕ} {ids : List ℤ} {lookup : Lookup} {request : Request} {shortIds : List ShortId}
      {urls : List Url} : s.lookups[q]? = some lookup → lookup.stage = .asking request →
      request.shortIds.mapM parseId = .ret shortIds →
      (s.shards request.shardId).getByUrlIds (shortIds.map ShortId.index) ids = some urls →
      Steps env service s (.read q ids)
        { s with calls := s.calls ++ [⟨q, request.shardId, s.now, urls, []⟩] }
  | convert {i : ℕ} {call : Call} {url : Url} {urls : List Url} {stats : UrlStats} {task : Task} :
      s.calls[i]? = some call → call.urls = url :: urls →
      Stats.convert env call.shardId (instant s.now) url = .ret stats →
      updateUrlStatsCache stats call.readAt = .ret task →
      Steps env service s (.convert i)
        { s with
          calls := s.calls.set i
            { call with urls := urls, reply := call.reply ++ [stats.serialize] }
          tasks := s.tasks ++ [task] }
  | reply {i : ℕ} {call : Call} {lookup : Lookup} {request : Request} {reply : Exec Reply} :
      s.calls[i]? = some call → call.urls = [] → s.lookups[call.lookup]? = some lookup →
      lookup.stage = .asking request →
      lookup.query.finish service request.urls call.reply = some reply →
      Steps env service s (.reply i)
        { s.setStage call.lookup lookup (.ofExec (Stage.answered <$> reply)) with
          calls := s.calls.eraseIdx i }
  | replyAgain (i : ℕ) : Steps env service s (.reply i) { s with calls := s.calls.eraseIdx i }
  | lose (i : ℕ) : Steps env service s (.lose i) { s with calls := s.calls.eraseIdx i }
  | run {k : ℕ} {task : Task} : s.tasks[k]? = some task →
      Steps env service s (.run k)
        { s with
          tasks := s.tasks.eraseIdx k
          entries := Function.update s.entries task.key
            (some ⟨urlStatsContract.serialize task.url.toObject, s.now + statsDuration⟩) }
  | drop (k : ℕ) : Steps env service s (.drop k) { s with tasks := s.tasks.eraseIdx k }
  | remove (key : String) :
      Steps env service s (.remove key)
        { s with entries := Function.update s.entries key none }

/-- **What a step does.** -/
theorem step_cases (h : step env service s e = some t) : Steps env service s e t := by
  cases e with
  | statement r statement =>
    simp only [step, Option.ite_none_right_eq_some, Option.some.injEq] at h
    obtain ⟨hallows, rfl⟩ := h
    exact .statement hallows
  | tick =>
    obtain rfl := Option.some.inj h
    exact .tick
  | getById shortId =>
    simp only [step] at h
    split at h
    · rename_i id hparse
      obtain rfl := Option.some.inj h
      exact .getById hparse
    · obtain rfl := Option.some.inj h
      exact .refused _
  | getByIds shortIds =>
    simp only [step] at h
    split at h
    · rename_i ids hparse
      obtain rfl := Option.some.inj h
      exact .getByIds hparse
    · obtain rfl := Option.some.inj h
      exact .refused _
  | lookUp q =>
    simp only [step] at h
    split at h
    · rename_i lookup hq
      split at h
      · rename_i hstage
        obtain rfl := Option.some.inj h
        exact .lookUp hq hstage
      · cases h
    · cases h
  | fail q =>
    simp only [step] at h
    split at h
    · rename_i lookup hq
      split at h
      · cases h
      · obtain rfl := Option.some.inj h
        exact .fail hq
    · cases h
  | read q ids =>
    simp only [step] at h
    split at h
    · rename_i lookup hq
      split at h
      · rename_i request hstage
        split at h
        · rename_i shortIds hparse
          obtain ⟨urls, hurls, rfl⟩ := Option.map_eq_some_iff.mp h
          exact .read hq hstage hparse hurls
        · cases h
      · cases h
    · cases h
  | convert i =>
    simp only [step] at h
    split at h
    · rename_i call hi
      split at h
      · rename_i url urls hurls
        split at h
        · rename_i stats hstats
          split at h
          · rename_i task htask
            obtain rfl := Option.some.inj h
            exact .convert hi hurls hstats htask
          · cases h
        · cases h
      · cases h
    · cases h
  | reply i =>
    simp only [step] at h
    split at h
    · rename_i call hi
      split at h
      · rename_i lookup hurls hlookup
        split at h
        · rename_i request hstage
          obtain ⟨reply, hreply, rfl⟩ := Option.map_eq_some_iff.mp h
          exact .reply hi hurls hlookup hstage hreply
        · obtain rfl := Option.some.inj h
          exact .replyAgain i
      · cases h
    · cases h
  | lose i =>
    obtain rfl := Option.some.inj h
    exact .lose i
  | run k =>
    simp only [step] at h
    split at h
    · rename_i task hk
      obtain rfl := Option.some.inj h
      exact .run hk
    · cases h
  | drop k =>
    obtain rfl := Option.some.inj h
    exact .drop k
  | remove key =>
    obtain rfl := Option.some.inj h
    exact .remove key

/-! ## What a frontend finds -/

/-- What a client gets of statistics that come in a reply. -/
def replied (service : ShortUrlService) (stats : UrlStats) : Dtos.UrlStats :=
  .at (service.link stats.shortId) stats.copied.toObject

/-- What a client gets of statistics that come from the cache. -/
def cached (service : ShortUrlService) (stats : UrlStats) : Dtos.UrlStats :=
  .at (service.link stats.shortId) stats.cached.toObject

/-- The frontend has these statistics, from the cache or from the shard. -/
def Stage.Has (url : Dtos.UrlStats) : Stage → Prop
  | .asking request => ∃ shortUrl, request.urls.lookup shortUrl = some url
  | .answered reply => reply.Has url
  | _ => False

/-- The entry has the statistics under the key of their link. -/
structure IsEntry (key : String) (json : Json) (stats : UrlStats) : Prop where
  key : key = urlStatsKey stats.shortId
  isCode : IsCode stats.shortId
  inRange : stats.InRange
  json : json = urlStatsContract.serialize stats.toObject

/-- The cache has such entries only. -/
def IsStatsCache (cache : String → Option Json) : Prop :=
  ∀ key json, cache key = some json → ∃ stats, IsEntry key json stats

theorem ofStats_eq (url : UrlStats) (hcode : IsCode url.shortId) :
    Dtos.UrlStats.ofStats service url.toObject =
      .ret (.at (service.link url.shortId) url.toObject) := by
  have hget : service.get url.toObject.shortId = .ret (service.link url.shortId) :=
    service.get_code hcode
  rw [Dtos.UrlStats.ofStats, hget]
  rfl

theorem IsEntry.read {key : String} {json : Json} {stats : UrlStats} (h : IsEntry key json stats) :
    urlStatsContract.converter.read json = .ret (some stats.cached.toObject) := by
  rw [h.json]
  exact Contract.read_write_converter (fromCache_eq h.inRange)

theorem IsEntry.ofStats {key : String} {json : Json} {stats : UrlStats}
    (h : IsEntry key json stats) :
    Dtos.UrlStats.ofStats service stats.cached.toObject = .ret (cached service stats) :=
  ofStats_eq stats.cached h.isCode

section

variable {cache : String → Option Json} {query : Query} {stage : Stage} {url : Dtos.UrlStats}

/-- A value that is read is that of an entry. -/
theorem IsStatsCache.read (hcache : IsStatsCache cache) {key : String} {value : UrlStatsObject}
    (h : readValue urlStatsContract.converter.read (cache key) = .ret (some value)) :
    ∃ json stats, cache key = some json ∧ IsEntry key json stats ∧
      value = stats.cached.toObject := by
  cases hjson : cache key with
  | none =>
    rw [hjson] at h
    cases h
  | some json =>
    obtain ⟨stats, hentry⟩ := hcache key json hjson
    rw [hjson] at h
    exact ⟨json, stats, rfl, hentry, (Option.some.inj (Exec.ret.inj (hentry.read.symm.trans h))).symm⟩

/-- `Get` for a list of keys reads these keys. -/
theorem cacheGet_lookup {keys : List String}
    {cachedUrls : Dictionary String (Option UrlStatsObject)}
    (h : cacheGet urlStatsContract.converter.read cache keys = .ret (some cachedUrls)) :
    ∀ key, ∀ value ∈ cachedUrls.lookup key,
      key ∈ keys ∧ readValue urlStatsContract.converter.read (cache key) = .ret value := by
  rw [cacheGet, Exec.bind_eq_ret_iff] at h
  obtain ⟨cachedData, hloop, h⟩ := h
  have hdata : cachedData = cachedUrls := by
    split_ifs at h
    · cases h
    · exact Option.some.inj (Exec.ret.inj h)
  rw [← hdata]
  refine Exec.foldlM_invariant (P := fun (d : Dictionary String (Option UrlStatsObject)) =>
    ∀ key, ∀ value ∈ d.lookup key,
      key ∈ keys ∧ readValue urlStatsContract.converter.read (cache key) = .ret value) hloop ?_ ?_
  · intro key value hvalue
    cases hvalue
  · intro key hkey d d' hd hstep
    obtain ⟨value, hread, hadd⟩ := Exec.bind_eq_ret_iff.mp hstep
    obtain ⟨-, rfl⟩ := Dictionary.add_eq_ret_iff.mp hadd
    exact Dictionary.forall_insert hd ⟨hkey, hread⟩

/-- The loop over the cached URLs adds what they have, and asks for nothing new. -/
theorem foldlM_addCached_lookup {entries : List (Σ _ : String, Option UrlStatsObject)}
    {shortIds idsToQuery : List String} {urls : ByShortUrl}
    (h : entries.foldlM (addCached service) (∅, shortIds) = .ret (urls, idsToQuery)) :
    (∀ shortUrl, ∀ url ∈ urls.lookup shortUrl, ∃ entry ∈ entries, ∃ value, entry.2 = some value ∧
      Dtos.UrlStats.ofStats service value = .ret url) ∧ idsToQuery ⊆ shortIds := by
  refine Exec.foldlM_invariant (P := fun (state : ByShortUrl × List String) =>
    (∀ shortUrl, ∀ url ∈ state.1.lookup shortUrl, ∃ entry ∈ entries, ∃ value,
      entry.2 = some value ∧ Dtos.UrlStats.ofStats service value = .ret url) ∧
    state.2 ⊆ shortIds) h ?_ ?_
  · refine ⟨?_, List.Subset.refl _⟩
    intro shortUrl url hurl
    cases hurl
  · rintro entry hentry ⟨urls, idsToQuery⟩ state' ⟨hurls, hids⟩ hstep
    rw [addCached] at hstep
    split at hstep
    · obtain rfl := Exec.ret.inj hstep
      exact ⟨hurls, hids⟩
    · rename_i value hvalue
      obtain ⟨urls', hadd, hstep⟩ := Exec.bind_eq_ret_iff.mp hstep
      obtain rfl := Exec.ret.inj hstep
      obtain ⟨shortUrl, -, hadd⟩ := Exec.bind_eq_ret_iff.mp hadd
      obtain ⟨url, hurl, hadd⟩ := Exec.bind_eq_ret_iff.mp hadd
      obtain ⟨-, rfl⟩ := Dictionary.add_eq_ret_iff.mp hadd
      exact ⟨Dictionary.forall_insert hurls ⟨entry, hentry, value, hvalue, hurl⟩,
        fun _ hmem => hids (List.erase_subset hmem)⟩

/-- The link whose statistics the client has asked for is the one it is told about. -/
def FoundIn (service : ShortUrlService) (cache : String → Option Json) (ids : List ShortId)
    (url : Dtos.UrlStats) : Prop :=
  ∃ id ∈ ids, ∃ key json stats, cache key = some json ∧ IsEntry key json stats ∧
    id.toString = .ret stats.shortId ∧ url = cached service stats

theorem foundIn_of_read (hcache : IsStatsCache cache) {ids : List ShortId} {id : ShortId}
    (hid : id ∈ ids) {key : String} {value : UrlStatsObject} (hkey : getUrlStatsKey id = .ret key)
    (hread : readValue urlStatsContract.converter.read (cache key) = .ret (some value))
    (hurl : Dtos.UrlStats.ofStats service value = .ret url) : FoundIn service cache ids url := by
  obtain ⟨json, stats, hjson, hentry, rfl⟩ := hcache.read hread
  obtain ⟨shortId, hprint, hshort⟩ := Exec.map_eq_ret_iff.mp hkey
  obtain rfl : shortId = stats.shortId := urlStatsKey_injective (hshort.trans hentry.key)
  exact ⟨id, hid, key, json, stats, hjson, hentry, hprint,
    (Exec.ret.inj (hentry.ofStats.symm.trans hurl)).symm⟩

theorem lookUp_found (hcache : IsStatsCache cache) {ids : List ShortId} {urls : ByShortUrl}
    {idsToQuery : List String} (h : Batch.lookUp service cache ids = .ret (urls, idsToQuery)) :
    (∀ shortUrl, ∀ url ∈ urls.lookup shortUrl, FoundIn service cache ids url) ∧
      ∀ shortId ∈ idsToQuery, ∃ id ∈ ids, id.toString = .ret shortId := by
  rw [Batch.lookUp, Exec.bind_eq_ret_iff] at h
  obtain ⟨cacheKeys, hkeys, h⟩ := h
  obtain ⟨shortIds, hshort, h⟩ := Exec.bind_eq_ret_iff.mp h
  obtain ⟨cachedUrls, hcached, h⟩ := Exec.bind_eq_ret_iff.mp h
  have hprinted : ∀ shortId ∈ shortIds, ∃ id ∈ ids, id.toString = .ret shortId := fun shortId hmem =>
    Exec.mem_of_mapM hshort hmem
  cases cachedUrls with
  | none =>
    obtain ⟨rfl, rfl⟩ := Prod.mk.inj (Exec.ret.inj h)
    refine ⟨?_, hprinted⟩
    intro shortUrl url hurl
    cases hurl
  | some cachedUrls =>
    obtain ⟨hurls, hsub⟩ := foldlM_addCached_lookup h
    refine ⟨?_, fun shortId hmem => hprinted shortId (hsub hmem)⟩
    intro shortUrl url hurl
    obtain ⟨entry, hentry, value, hvalue, hstats⟩ := hurls shortUrl url hurl
    obtain ⟨hkey, hread⟩ := cacheGet_lookup hcached entry.1 (some value)
      (hvalue ▸ Dictionary.lookup_entry hentry)
    obtain ⟨id, hid, hkey⟩ := Exec.mem_of_mapM hkeys hkey
    exact foundIn_of_read hcache hid hkey hread hstats

/-- **What a frontend takes from the cache, and what it asks for.** -/
theorem Query.lookUp_spec (hcache : IsStatsCache cache)
    (h : query.lookUp service cache = .ret stage) :
    (∀ url, stage.Has url → FoundIn service cache query.ids url) ∧
      ∀ request, stage = .asking request → ∀ shortId ∈ request.shortIds,
        ∃ id ∈ query.ids, id.toString = .ret shortId ∧ id.range = request.shardId := by
  cases query with
  | getById id =>
    simp only [Query.lookUp, Exec.bind_eq_ret_iff] at h
    obtain ⟨key, hkey, value, hread, h⟩ := h
    cases value with
    | some value =>
      obtain ⟨url, hurl, h⟩ := Exec.bind_eq_ret_iff.mp h
      obtain rfl := Exec.ret.inj h
      refine ⟨?_, fun request hrequest => by cases hrequest⟩
      rintro url' rfl
      exact foundIn_of_read hcache (List.mem_singleton_self id) hkey hread hurl
    | none =>
      obtain ⟨shortId, hprint, h⟩ := Exec.bind_eq_ret_iff.mp h
      obtain rfl := Exec.ret.inj h
      refine ⟨?_, ?_⟩
      · rintro url ⟨shortUrl, hurl⟩
        cases hurl
      · rintro request hrequest shortId' hmem
        obtain rfl := Stage.asking.inj hrequest
        obtain rfl := List.mem_singleton.mp hmem
        exact ⟨id, List.mem_singleton_self id, hprint, rfl⟩
  | getByIds ids =>
    cases ids with
    | nil => cases h
    | cons first rest =>
      simp only [Query.lookUp] at h
      split_ifs at h with hrange
      simp only [Exec.bind_eq_ret_iff] at h
      obtain ⟨⟨urls, idsToQuery⟩, hfound, h⟩ := h
      obtain ⟨hurls, hids⟩ := lookUp_found hcache hfound
      have hstage := Exec.ret.inj h
      dsimp only at hstage
      split_ifs at hstage with hcount
      · subst hstage
        refine ⟨?_, fun request hrequest => by cases hrequest⟩
        rintro url ⟨shortUrl, hurl⟩
        exact hurls shortUrl url hurl
      · subst hstage
        refine ⟨?_, ?_⟩
        · rintro url ⟨shortUrl, hurl⟩
          exact hurls shortUrl url hurl
        · rintro request hrequest shortId hmem
          obtain rfl := Stage.asking.inj hrequest
          obtain ⟨id, hid, hprint⟩ := hids shortId hmem
          refine ⟨id, hid, hprint, ?_⟩
          by_contra hne
          exact hrange (List.any_eq_true.mpr ⟨id, hid, decide_eq_true hne⟩)

/-- **What a client gets was in the cache or in the reply.** -/
theorem Query.finish_spec {urls : ByShortUrl} {rows : List UrlStats} {reply : Reply}
    (hcode : ∀ stats ∈ rows, IsCode stats.shortId)
    (h : query.finish service urls (rows.map UrlStats.serialize) = some (.ret reply))
    (hurl : reply.Has url) :
    (∃ shortUrl, urls.lookup shortUrl = some url) ∨ ∃ stats ∈ rows, url = replied service stats := by
  cases query with
  | getById id =>
    cases rows with
    | nil => cases h
    | cons stats rows =>
      cases rows with
      | cons stats' rows => cases h
      | nil =>
        have h := Option.some.inj h
        rw [UrlStats.ofGrpc_serialize, Exec.ret_bind,
          ofStats_eq stats.copied (hcode stats List.mem_cons_self)] at h
        obtain rfl := Exec.ret.inj h
        obtain rfl := hurl
        exact .inr ⟨stats, List.mem_cons_self, rfl⟩
  | getByIds ids =>
    obtain ⟨urls', hloop, h⟩ := Exec.bind_eq_ret_iff.mp (Option.some.inj h)
    obtain rfl := Exec.ret.inj h
    obtain ⟨shortUrl, hurl⟩ := hurl
    rw [List.foldlM_map] at hloop
    refine Exec.foldlM_invariant (P := fun (d : ByShortUrl) => ∀ shortUrl, ∀ url ∈ d.lookup shortUrl,
      (∃ shortUrl, urls.lookup shortUrl = some url) ∨ ∃ stats ∈ rows, url = replied service stats)
      hloop ?_ ?_ shortUrl url hurl
    · exact fun shortUrl url hurl => .inl ⟨shortUrl, hurl⟩
    · intro stats hstats d d' hd hstep
      rw [addRow_eq (hcode stats hstats)] at hstep
      obtain ⟨-, rfl⟩ := Dictionary.add_eq_ret_iff.mp hstep
      exact Dictionary.forall_insert hd (.inr ⟨stats, hstats, rfl⟩)

end

end Shortener.Urls.Lookups
