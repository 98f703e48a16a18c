import Shortener.Common.Provenance
import Shortener.Urls.Lookups

/-!
# The statistics a client gets

Statistics that a frontend returns come from a row, through the reply of the shard or through
the cache.

* `Inv.step`: which links the frontends, the shards and the cache work on.
* `held_step`: calls, work items, entries and lookups copy statistics, and only the query of
  a shard takes them from a row.
* `statistics_recent`: what a client gets is what `Convert` made of the row of a link that he
  asked for, and the row was like this lately, if work items do not wait for too long.
* `totalViews_not_overstated`: no client is told more views than the link has.
-/

namespace Shortener.Urls.Lookups

open Shortener.Common Shortener.DotNet Shortener.Codec Shortener.Links Shortener.Stats
  Shortener.Urls.Batch

variable {env : Globalization} {service : ShortUrlService} {s t : State} {e : Event}
  {es : List Event}

/-! ## Invariant -/

/-- The statistics have the address of link `id`. -/
def Names (service : ShortUrlService) (id : ShortId) (url : Dtos.UrlStats) : Prop :=
  ∃ shortId, id.toString = .ret shortId ∧ url.shortUrl = service.link shortId

/-- The statistics are those of a link among `ids`. -/
def About (service : ShortUrlService) (ids : List ShortId) (url : Dtos.UrlStats) : Prop :=
  ∃ id ∈ ids, Names service id url

/-- A frontend asks for the links that its client has asked for, and tells of no others. -/
structure Stage.Fits (service : ShortUrlService) (ids : List ShortId) (stage : Stage) : Prop where
  asking : ∀ request, stage = .asking request → ∀ shortId ∈ request.shortIds,
    ∃ id ∈ ids, id.toString = .ret shortId ∧ id.range = request.shardId
  about : ∀ url, stage.Has url → About service ids url

/-- A call has read rows of links that the client has asked for. -/
structure Call.Serves (call : Call) (lookup : Lookup) (now : ℕ) : Prop where
  came : lookup.timestamp ≤ call.readAt
  read : call.readAt ≤ now
  urls : ∀ url ∈ call.urls, ⟨call.shardId, url.id⟩ ∈ lookup.query.ids ∧ IsInt32 url.totalViews
  reply : ∃ rows : List UrlStats, call.reply = rows.map UrlStats.serialize ∧
    ∀ stats ∈ rows, ∃ id ∈ lookup.query.ids, id.toString = .ret stats.shortId

/-- The work item writes an entry. -/
def Task.Writes (task : Task) : Prop :=
  IsEntry task.key (urlStatsContract.serialize task.url.toObject) task.url

/-- What the frontends, the calls, the work items and the cache hold is of links that were asked
    for. -/
structure Inv (service : ShortUrlService) (s : State) : Prop where
  parsed : ∀ lookup ∈ s.lookups, ∀ id ∈ lookup.query.ids, Parsed id
  timestamps : ∀ lookup ∈ s.lookups, lookup.timestamp ≤ s.now
  stages : ∀ lookup ∈ s.lookups, lookup.stage.Fits service lookup.query.ids
  calls : ∀ call ∈ s.calls, ∃ lookup, s.lookups[call.lookup]? = some lookup ∧
    call.Serves lookup s.now
  tasks : ∀ task ∈ s.tasks, task.Writes
  entries : ∀ key entry, s.entries key = some entry → ∃ stats, IsEntry key entry.data stats
  counters : ∀ r, ∀ url ∈ (s.shards r).rows, IsInt32 url.totalViews

theorem inv_init : Inv service .init := by
  constructor <;> simp [State.init]

theorem Inv.cache (hs : Inv service s) : IsStatsCache s.cache := by
  intro key json hjson
  obtain ⟨entry, hentry, hlive⟩ := Option.bind_eq_some_iff.mp hjson
  obtain ⟨-, hdata⟩ := Option.ite_none_right_eq_some.mp hlive
  obtain rfl := Option.some.inj hdata
  exact hs.entries key entry hentry

theorem Stage.Fits.looking {ids : List ShortId} : Stage.looking.Fits service ids where
  asking _ h := nomatch h
  about _ h := nomatch h

theorem Stage.Fits.failed {ids : List ShortId} : Stage.failed.Fits service ids where
  asking _ h := nomatch h
  about _ h := nomatch h

theorem Stage.Fits.ofExec {ids : List ShortId} {stage : Exec Stage}
    (h : ∀ stage', stage = .ret stage' → stage'.Fits service ids) :
    (Stage.ofExec stage).Fits service ids := by
  cases stage with
  | ret stage' => exact h stage' rfl
  | throw e => exact .failed
  | diverge => exact .failed

/-- What the cache has is about a link that the client asked for. -/
theorem FoundIn.about {cache : String → Option Json} {ids : List ShortId} {url : Dtos.UrlStats}
    (h : FoundIn service cache ids url) : About service ids url := by
  obtain ⟨id, hid, key, json, stats, -, -, hprint, rfl⟩ := h
  exact ⟨id, hid, stats.shortId, hprint, rfl⟩

theorem Call.Serves.about {call : Call} {lookup : Lookup} {now : ℕ} (h : call.Serves lookup now)
    {request : Request} {reply : Reply} (hstage : lookup.stage.Fits service lookup.query.ids)
    (hrequest : lookup.stage = .asking request)
    (hreply : lookup.query.finish service request.urls call.reply = some (.ret reply)) :
    (Stage.answered reply).Fits service lookup.query.ids := by
  refine ⟨fun _ h => (by cases h), ?_⟩
  intro url hurl
  obtain ⟨rows, hrows, hprint⟩ := h.reply
  rw [hrows] at hreply
  have hcode : ∀ stats ∈ rows, IsCode stats.shortId := by
    intro stats hstats
    obtain ⟨id, -, hid⟩ := hprint stats hstats
    exact (ShortId.isCode_of_toString hid).1
  rcases Query.finish_spec hcode hreply hurl with ⟨shortUrl, hfound⟩ | ⟨stats, hstats, rfl⟩
  · refine hstage.about url ?_
    rw [hrequest]
    exact ⟨shortUrl, hfound⟩
  · obtain ⟨id, hid, hid'⟩ := hprint stats hstats
    exact ⟨id, hid, stats.shortId, hid', rfl⟩

/-! ### Kinds of steps -/

/-- A lookup keeps its arguments and the time it began. -/
theorem getElem?_setStage {q w : ℕ} {lookup lookup' : Lookup} {stage : Stage}
    (hq : s.lookups[q]? = some lookup) (hw : s.lookups[w]? = some lookup') :
    ∃ stage', (s.setStage q lookup stage).lookups[w]? = some { lookup' with stage := stage' } := by
  by_cases h : q = w
  · subst h
    obtain rfl : lookup = lookup' := Option.some.inj (hq.symm.trans hw)
    have hlt := (List.getElem?_eq_some_iff.mp hq).1
    exact ⟨stage, List.getElem?_set_self hlt⟩
  · refine ⟨lookup'.stage, ?_⟩
    rw [State.setStage, List.getElem?_set_ne h]
    exact hw

theorem Call.Serves.setStage {call : Call} {lookup : Lookup} {now : ℕ} (h : call.Serves lookup now)
    (stage : Stage) : call.Serves { lookup with stage := stage } now :=
  ⟨h.came, h.read, h.urls, h.reply⟩

theorem Inv.setStage (hs : Inv service s) {q : ℕ} {lookup : Lookup} {stage : Stage}
    (hq : s.lookups[q]? = some lookup) (hstage : stage.Fits service lookup.query.ids) :
    Inv service (s.setStage q lookup stage) where
  parsed := by
    intro lookup' hmem
    rcases List.mem_or_eq_of_mem_set hmem with hmem | rfl
    · exact hs.parsed lookup' hmem
    · exact hs.parsed lookup (List.mem_of_getElem? hq)
  timestamps := by
    intro lookup' hmem
    rcases List.mem_or_eq_of_mem_set hmem with hmem | rfl
    · exact hs.timestamps lookup' hmem
    · exact hs.timestamps lookup (List.mem_of_getElem? hq)
  stages := by
    intro lookup' hmem
    rcases List.mem_or_eq_of_mem_set hmem with hmem | rfl
    · exact hs.stages lookup' hmem
    · exact hstage
  calls := by
    intro call hcall
    obtain ⟨lookup', hw, hserves⟩ := hs.calls call hcall
    obtain ⟨stage', hw'⟩ := getElem?_setStage hq hw
    exact ⟨_, hw', hserves.setStage stage'⟩
  tasks := hs.tasks
  entries := hs.entries
  counters := hs.counters

theorem Inv.addLookup (hs : Inv service s) {query : Query} (hquery : ∀ id ∈ query.ids, Parsed id) :
    Inv service (s.addLookup query) where
  parsed := by
    intro lookup hmem
    rcases List.mem_append.mp hmem with hmem | hmem
    · exact hs.parsed lookup hmem
    · obtain rfl := List.mem_singleton.mp hmem
      exact hquery
  timestamps := by
    intro lookup hmem
    rcases List.mem_append.mp hmem with hmem | hmem
    · exact hs.timestamps lookup hmem
    · obtain rfl := List.mem_singleton.mp hmem
      exact le_rfl
  stages := by
    intro lookup hmem
    rcases List.mem_append.mp hmem with hmem | hmem
    · exact hs.stages lookup hmem
    · obtain rfl := List.mem_singleton.mp hmem
      exact .looking
  calls := by
    intro call hcall
    obtain ⟨lookup, hq, hserves⟩ := hs.calls call hcall
    have hlt := (List.getElem?_eq_some_iff.mp hq).1
    refine ⟨lookup, ?_, hserves⟩
    rw [State.addLookup, List.getElem?_append_left hlt]
    exact hq
  tasks := hs.tasks
  entries := hs.entries
  counters := hs.counters

/-- A step that drops calls and work items only. -/
theorem Inv.drop (hs : Inv service s) {calls : List Call} {tasks : List Task}
    (hcalls : ∀ call ∈ calls, call ∈ s.calls) (htasks : ∀ task ∈ tasks, task ∈ s.tasks) :
    Inv service { s with calls := calls, tasks := tasks } :=
  ⟨hs.parsed, hs.timestamps, hs.stages, fun call hcall => hs.calls call (hcalls call hcall),
    fun task htask => hs.tasks task (htasks task htask), hs.entries, hs.counters⟩

theorem Inv.setEntry (hs : Inv service s) (key : String) {entry : Option Entry}
    (hentry : ∀ entry' ∈ entry, ∃ stats, IsEntry key entry'.data stats) :
    Inv service { s with entries := Function.update s.entries key entry } := by
  refine ⟨hs.parsed, hs.timestamps, hs.stages, hs.calls, hs.tasks, ?_, hs.counters⟩
  intro key' entry' hentry'
  by_cases hkey : key' = key
  · subst hkey
    dsimp only at hentry'
    rw [Function.update_self] at hentry'
    exact hentry entry' hentry'
  · dsimp only at hentry'
    rw [Function.update_of_ne hkey] at hentry'
    exact hs.entries key' entry' hentry'

/-- A statement keeps counters in range. -/
theorem isInt32_run {shard : Shard} {now : ℤ} {statement : Statement}
    (hallows : shard.Allows statement) (h : ∀ url ∈ shard.rows, IsInt32 url.totalViews) :
    ∀ url ∈ (shard.run now statement).rows, IsInt32 url.totalViews := by
  intro url hurl
  cases statement with
  | add id userId destinationUrl =>
    rcases List.mem_append.mp hurl with hurl | hurl
    · exact h url hurl
    · obtain rfl := List.mem_singleton.mp hurl
      show IsInt32 0
      decide
  | update id userId destinationUrl =>
    obtain ⟨url', hurl', rfl⟩ := List.mem_map.mp hurl
    split_ifs
    · exact h url' hurl'
    · exact h url' hurl'
  | incrementVisit id =>
    obtain ⟨url', hurl', rfl⟩ := List.mem_map.mp hurl
    have hold := h url' hurl'
    split_ifs with hid
    · have hroom := hallows url' hurl' hid
      unfold IsInt32 at hold ⊢
      dsimp only
      omega
    · exact hold
  | delete id userId => exact h url (List.mem_filter.mp hurl).1
  | cascade userId => exact h url (List.mem_filter.mp hurl).1
  | visit id visits =>
    obtain ⟨url', hurl', rfl⟩ := List.mem_map.mp hurl
    split_ifs
    · exact h url' hurl'
    · exact h url' hurl'

theorem Inv.statement (hs : Inv service s) {r : ℤ} {statement : Statement} {now : ℤ}
    (hallows : (s.shards r).Allows statement) :
    Inv service
      { s with shards := Function.update s.shards r ((s.shards r).run now statement) } := by
  refine ⟨hs.parsed, hs.timestamps, hs.stages, hs.calls, hs.tasks, hs.entries, ?_⟩
  intro r'
  by_cases hr : r' = r
  · subst hr
    show ∀ url ∈ (Function.update s.shards r' _ r').rows, _
    rw [Function.update_self]
    exact isInt32_run hallows (hs.counters r')
  · show ∀ url ∈ (Function.update s.shards r _ r').rows, _
    rw [Function.update_of_ne hr]
    exact hs.counters r'

/-- Rows that the query returns are there, with ids that were asked for. -/
theorem mem_of_getByUrlIds {shard : Shard} {indices ids : List ℤ} {urls : List Url}
    (h : shard.getByUrlIds indices ids = some urls) {url : Url} (hurl : url ∈ urls) :
    url ∈ shard.rows ∧ url.id ∈ indices := by
  simp only [Shard.getByUrlIds, Option.ite_none_right_eq_some, Option.some.injEq] at h
  obtain ⟨⟨-, hperm⟩, rfl⟩ := h
  obtain ⟨id, hid, hfind⟩ := List.mem_filterMap.mp hurl
  have hurlid : url.id = id := by simpa using List.find?_some hfind
  obtain ⟨url', hurl', rfl⟩ := List.mem_map.mp (hperm.mem_iff.mp hid)
  rw [hurlid]
  exact ⟨List.mem_of_find?_eq_some hfind, of_decide_eq_true (List.mem_filter.mp hurl').2⟩

/-- The rows a call reads are those of links that the client asked for. -/
theorem mem_ids_of_read (hs : Inv service s) {q : ℕ} {ids : List ℤ} {lookup : Lookup}
    {request : Request} {shortIds : List ShortId} {urls : List Url}
    (hq : s.lookups[q]? = some lookup) (hstage : lookup.stage = .asking request)
    (hparse : request.shortIds.mapM parseId = .ret shortIds)
    (hurls : (s.shards request.shardId).getByUrlIds (shortIds.map ShortId.index) ids = some urls)
    {url : Url} (hurl : url ∈ urls) : ⟨request.shardId, url.id⟩ ∈ lookup.query.ids := by
  have hmem := List.mem_of_getElem? hq
  obtain ⟨id, hid, hindex⟩ := List.mem_map.mp (mem_of_getByUrlIds hurls hurl).2
  obtain ⟨shortId, hshort, hparse⟩ := Exec.mem_of_mapM hparse hid
  obtain ⟨id', hid', hprint, hrange⟩ := (hs.stages lookup hmem).asking request hstage shortId hshort
  have hsame : id' = id :=
    Exec.ret.inj (((hs.parsed lookup hmem id' hid').parseId_toString hprint).symm.trans hparse)
  rw [hsame] at hid' hrange
  rw [← hindex, ← hrange]
  exact hid'

theorem Inv.read (hs : Inv service s) {q : ℕ} {ids : List ℤ} {lookup : Lookup} {request : Request}
    {shortIds : List ShortId} {urls : List Url} (hq : s.lookups[q]? = some lookup)
    (hstage : lookup.stage = .asking request)
    (hparse : request.shortIds.mapM parseId = .ret shortIds)
    (hurls : (s.shards request.shardId).getByUrlIds (shortIds.map ShortId.index) ids = some urls) :
    Inv service { s with calls := s.calls ++ [⟨q, request.shardId, s.now, urls, []⟩] } := by
  refine ⟨hs.parsed, hs.timestamps, hs.stages, ?_, hs.tasks, hs.entries, hs.counters⟩
  intro call hcall
  rcases List.mem_append.mp hcall with hcall | hcall
  · exact hs.calls call hcall
  · obtain rfl := List.mem_singleton.mp hcall
    refine ⟨lookup, hq, hs.timestamps lookup (List.mem_of_getElem? hq), le_rfl, ?_, [], rfl, ?_⟩
    · intro url hurl
      exact ⟨mem_ids_of_read hs hq hstage hparse hurls hurl,
        hs.counters _ url (mem_of_getByUrlIds hurls hurl).1⟩
    · intro stats hstats
      cases hstats

/-- The work item for statistics that `Convert` has returned. -/
theorem writes_of_convert {r now : ℤ} {url : Url} {stats : UrlStats} {readAt : ℕ} {task : Task}
    (htotal : IsInt32 url.totalViews) (hstats : convert env r now url = .ret stats)
    (htask : updateUrlStatsCache stats readAt = .ret task) :
    task.url = stats ∧ task.readAt = readAt ∧ task.Writes := by
  obtain ⟨id, hparse, htask⟩ := Exec.bind_eq_ret_iff.mp htask
  obtain ⟨key, hkey, htask⟩ := Exec.bind_eq_ret_iff.mp htask
  obtain rfl := Exec.ret.inj htask
  obtain ⟨shortId, hprint, rfl⟩ := Exec.map_eq_ret_iff.mp hkey
  obtain rfl : shortId = stats.shortId :=
    Exec.ret.inj (hprint.symm.trans (toString_of_parseId hparse))
  exact ⟨rfl, rfl, rfl, isCode_of_parseId hparse, inRange_of_convert htotal hstats, rfl⟩

theorem Inv.convert (hs : Inv service s) {i : ℕ} {call : Call} {url : Url} {urls : List Url}
    {stats : UrlStats} {task : Task} (hi : s.calls[i]? = some call)
    (hurls : call.urls = url :: urls)
    (hstats : Stats.convert env call.shardId (instant s.now) url = .ret stats)
    (htask : updateUrlStatsCache stats call.readAt = .ret task) :
    Inv service
      { s with
        calls := s.calls.set i { call with urls := urls, reply := call.reply ++ [stats.serialize] }
        tasks := s.tasks ++ [task] } := by
  obtain ⟨lookup, hq, hserves⟩ := hs.calls call (List.mem_of_getElem? hi)
  obtain ⟨hid, htotal⟩ := hserves.urls url (hurls ▸ List.mem_cons_self)
  refine ⟨hs.parsed, hs.timestamps, hs.stages, ?_, ?_, hs.entries, hs.counters⟩
  · intro call' hcall'
    rcases List.mem_or_eq_of_mem_set hcall' with hcall' | rfl
    · exact hs.calls call' hcall'
    · refine ⟨lookup, hq, hserves.came, hserves.read, ?_, ?_⟩
      · intro url' hurl'
        exact hserves.urls url' (hurls ▸ List.mem_cons_of_mem url hurl')
      · obtain ⟨rows, hrows, hprint⟩ := hserves.reply
        refine ⟨rows ++ [stats], ?_, ?_⟩
        · show call.reply ++ [stats.serialize] = _
          rw [hrows, List.map_append]
          rfl
        · intro stats' hmem
          rcases List.mem_append.mp hmem with hmem | hmem
          · exact hprint stats' hmem
          · obtain rfl := List.mem_singleton.mp hmem
            exact ⟨_, hid, (convert_eq_ret_iff.mp hstats).1⟩
  · intro task' htask'
    rcases List.mem_append.mp htask' with htask' | htask'
    · exact hs.tasks task' htask'
    · obtain rfl := List.mem_singleton.mp htask'
      exact (writes_of_convert htotal hstats htask).2.2

theorem Inv.tick (hs : Inv service s) : Inv service { s with now := s.now + 1 } := by
  refine ⟨hs.parsed, ?_, hs.stages, ?_, hs.tasks, hs.entries, hs.counters⟩
  · exact fun lookup hlookup => (hs.timestamps lookup hlookup).trans (Nat.le_succ _)
  · intro call hcall
    obtain ⟨lookup, hq, hserves⟩ := hs.calls call hcall
    exact ⟨lookup, hq, hserves.came, hserves.read.trans (Nat.le_succ _), hserves.urls, hserves.reply⟩

theorem Inv.step (hs : Inv service s) (h : step env service s e = some t) : Inv service t := by
  cases step_cases h with
  | statement hallows => exact hs.statement hallows
  | tick => exact hs.tick
  | @getById _ id hparse =>
    refine hs.addLookup fun id' hid' => ?_
    obtain rfl := List.mem_singleton.mp hid'
    exact ⟨_, hparse⟩
  | getByIds hparse =>
    refine hs.addLookup fun id' hid' => ?_
    obtain ⟨shortId, -, hparse⟩ := Exec.mem_of_mapM hparse hid'
    exact ⟨shortId, hparse⟩
  | refused => exact hs
  | lookUp hq hstage =>
    refine hs.setStage hq (.ofExec fun stage hret => ?_)
    obtain ⟨hfound, hasked⟩ := Query.lookUp_spec hs.cache hret
    exact ⟨hasked, fun url hurl => (hfound url hurl).about⟩
  | fail hq => exact hs.setStage hq .failed
  | read hq hstage hparse hurls => exact hs.read hq hstage hparse hurls
  | convert hi hurls hstats htask => exact hs.convert hi hurls hstats htask
  | @reply i call lookup request reply hi _ hq hstage hreply =>
    obtain ⟨lookup', hq', hserves⟩ := hs.calls call (List.mem_of_getElem? hi)
    obtain rfl : lookup = lookup' := Option.some.inj (hq.symm.trans hq')
    have hfits := hs.stages lookup (List.mem_of_getElem? hq)
    refine Inv.drop (hs.setStage hq (.ofExec fun stage hret => ?_))
      (fun _ hcall => List.mem_of_mem_eraseIdx hcall) fun _ htask => htask
    obtain ⟨reply', rfl, rfl⟩ := Exec.map_eq_ret_iff.mp hret
    exact hserves.about hfits hstage hreply
  | replyAgain i =>
    exact hs.drop (fun _ hcall => List.mem_of_mem_eraseIdx hcall) fun _ htask => htask
  | lose i => exact hs.drop (fun _ hcall => List.mem_of_mem_eraseIdx hcall) fun _ htask => htask
  | @run k task hk =>
    refine Inv.setEntry (hs.drop (fun _ hcall => hcall) fun _ htask => List.mem_of_mem_eraseIdx htask)
      task.key ?_
    rintro entry ⟨rfl⟩
    exact ⟨task.url, hs.tasks task (List.mem_of_getElem? hk)⟩
  | drop k => exact hs.drop (fun _ hcall => hcall) fun _ htask => List.mem_of_mem_eraseIdx htask
  | remove key => exact hs.setEntry key fun _ hentry => by cases hentry

theorem inv_run {ok : State → Event → Prop} (h : Run (step env service) ok .init es s) :
    Inv service s :=
  h.invariant inv_init fun _ _ _ hs _ hstep => hs.step hstep

/-! ## Copies of statistics -/

variable {delay upTo since : ℕ} {url : Dtos.UrlStats}

/-- What a client gets of the row, converted on shard `r` at `time`. -/
def Shows (env : Globalization) (service : ShortUrlService) (r : ℤ) (row : Url) (time : ℕ)
    (url : Dtos.UrlStats) : Prop :=
  ∃ stats, convert env r (instant time) row = .ret stats ∧
    (url = replied service stats ∨ url = cached service stats)

/-- Where a state holds a copy of statistics from rows that were read at `since` or later and
    converted at `upTo` or earlier, if a row is read at most `delay` before its entry is
    written. -/
inductive Held (env : Globalization) (service : ShortUrlService) (delay upTo : ℕ) (s : State)
    (url : Dtos.UrlStats) (since : ℕ) : Prop
  | lookup {lookup : Lookup} : lookup ∈ s.lookups → lookup.stage.Has url →
      since ≤ lookup.timestamp - (delay + statsDuration) → Held env service delay upTo s url since
  | row {call : Call} {row : Url} {time : ℕ} : call ∈ s.calls → row ∈ call.urls →
      call.readAt ≤ time → time ≤ upTo → Shows env service call.shardId row time url →
      since ≤ call.readAt → Held env service delay upTo s url since
  | reply {call : Call} {stats : UrlStats} : call ∈ s.calls → stats.serialize ∈ call.reply →
      url = replied service stats → since ≤ call.readAt → Held env service delay upTo s url since
  | task {task : Task} : task ∈ s.tasks → url = cached service task.url → since ≤ task.readAt →
      Held env service delay upTo s url since
  | entry {key : String} {entry : Entry} {stats : UrlStats} : s.entries key = some entry →
      IsEntry key entry.data stats → url = cached service stats →
      since ≤ entry.deadline - (delay + statsDuration) → Held env service delay upTo s url since

/-- A row of link `id` that gives the statistics. -/
def Gives (env : Globalization) (service : ShortUrlService) (upTo : ℕ) (s : State) (id : ShortId)
    (url : Dtos.UrlStats) : Prop :=
  ∃ row ∈ (s.shards id.range).rows, row.id = id.index ∧
    ∃ time, s.now ≤ time ∧ time ≤ upTo ∧ Shows env service id.range row time url

/-- Such a row, read in time. -/
def Source (env : Globalization) (service : ShortUrlService) (upTo : ℕ) (s : State)
    (url : Dtos.UrlStats) (since : ℕ) : Prop :=
  ∃ id, Parsed id ∧ Gives env service upTo s id url ∧ since ≤ s.now

/-- A work item that writes an entry runs at most `delay` after its row was read. -/
def Prompt (delay : ℕ) (s : State) (e : Event) : Prop :=
  ∀ k task, e = .run k → s.tasks[k]? = some task → s.now ≤ task.readAt + delay

theorem replied_eq_of_serialize_eq {stats stats' : UrlStats}
    (h : stats.serialize = stats'.serialize) : replied service stats = replied service stats' := by
  have hcopied : stats.copied = stats'.copied := by
    have hread := UrlStats.ofGrpc_serialize stats
    rw [h, UrlStats.ofGrpc_serialize] at hread
    exact (Exec.ret.inj hread).symm
  show Dtos.UrlStats.at (service.link stats.copied.shortId) _ =
    Dtos.UrlStats.at (service.link stats'.copied.shortId) _
  rw [hcopied]

/-- An entry is read in one way. -/
theorem IsEntry.cached_eq {key : String} {json : Json} {stats stats' : UrlStats}
    (h : IsEntry key json stats) (h' : IsEntry key json stats') :
    cached service stats = cached service stats' := by
  have hread : stats.cached.toObject = stats'.cached.toObject :=
    Option.some.inj (Exec.ret.inj (h.read.symm.trans h'.read))
  have hshort : stats.shortId = stats'.shortId := urlStatsKey_injective (h.key.symm.trans h'.key)
  rw [cached, cached, hread, hshort]

/-! ## Steps -/

/-- A lookup that tells of statistics told of them before, has just found them in the cache,
    or has just got them in the reply of a call. -/
theorem has_cases (hs : Inv service s) (h : Steps env service s e t) {lookup : Lookup}
    (hlookup : lookup ∈ t.lookups) (hurl : lookup.stage.Has url) :
    (∃ lookup' ∈ s.lookups, lookup'.timestamp = lookup.timestamp ∧
      (lookup'.stage.Has url ∨ FoundIn service s.cache lookup'.query.ids url)) ∨
    ∃ call ∈ s.calls, ∃ stats : UrlStats, stats.serialize ∈ call.reply ∧
      url = replied service stats ∧ lookup.timestamp ≤ call.readAt := by
  have hnew : ∀ query, lookup ∈ (s.addLookup query).lookups → lookup ∈ s.lookups := by
    intro query hmem
    rcases List.mem_append.mp hmem with hmem | hmem
    · exact hmem
    · obtain rfl := List.mem_singleton.mp hmem
      cases hurl
  cases h with
  | getById => exact .inl ⟨lookup, hnew _ hlookup, rfl, .inl hurl⟩
  | getByIds => exact .inl ⟨lookup, hnew _ hlookup, rfl, .inl hurl⟩
  | @lookUp q lookup' hq hstage =>
    rcases List.mem_or_eq_of_mem_set hlookup with hlookup | rfl
    · exact .inl ⟨lookup, hlookup, rfl, .inl hurl⟩
    · refine .inl ⟨lookup', List.mem_of_getElem? hq, rfl, .inr ?_⟩
      cases hret : lookup'.query.lookUp service s.cache with
      | ret stage =>
        rw [hret] at hurl
        exact (Query.lookUp_spec hs.cache hret).1 url hurl
      | throw e =>
        rw [hret] at hurl
        cases hurl
      | diverge =>
        rw [hret] at hurl
        cases hurl
  | @fail q lookup' hq =>
    rcases List.mem_or_eq_of_mem_set hlookup with hlookup | rfl
    · exact .inl ⟨lookup, hlookup, rfl, .inl hurl⟩
    · cases hurl
  | @reply i call lookup' request reply hi hurls hq hstage hreply =>
    rcases List.mem_or_eq_of_mem_set hlookup with hlookup | rfl
    · exact .inl ⟨lookup, hlookup, rfl, .inl hurl⟩
    · obtain ⟨lookup'', hq', hserves⟩ := hs.calls call (List.mem_of_getElem? hi)
      obtain rfl : lookup' = lookup'' := Option.some.inj (hq.symm.trans hq')
      cases reply with
      | ret reply =>
        obtain ⟨rows, hrows, hprint⟩ := hserves.reply
        have hcode : ∀ stats ∈ rows, IsCode stats.shortId := by
          intro stats hstats
          obtain ⟨id, -, hid⟩ := hprint stats hstats
          exact (ShortId.isCode_of_toString hid).1
        rw [hrows] at hreply
        rcases Query.finish_spec hcode hreply hurl with ⟨shortUrl, hfound⟩ | ⟨stats, hstats, rfl⟩
        · refine .inl ⟨lookup', List.mem_of_getElem? hq, rfl, .inl ?_⟩
          rw [hstage]
          exact ⟨shortUrl, hfound⟩
        · refine .inr ⟨call, List.mem_of_getElem? hi, stats, ?_, rfl, hserves.came⟩
          rw [hrows]
          exact List.mem_map_of_mem hstats
      | throw e => cases hurl
      | diverge => cases hurl
  | _ => exact .inl ⟨lookup, hlookup, rfl, .inl hurl⟩

theorem held_lookup (hs : Inv service s) (h : Steps env service s e t) {lookup : Lookup}
    (hlookup : lookup ∈ t.lookups) (hurl : lookup.stage.Has url)
    (hsince : since ≤ lookup.timestamp - (delay + statsDuration)) :
    Held env service delay upTo s url since := by
  rcases has_cases hs h hlookup hurl with ⟨lookup', hlookup', htime, hhow⟩ |
    ⟨call, hcall, stats, hstats, heq, hcame⟩
  · rw [← htime] at hsince
    rcases hhow with hurl | ⟨id, hid, key, json, stats, hjson, hentry, -, heq⟩
    · exact .lookup hlookup' hurl hsince
    · -- the entry has not expired yet, and the client has come before
      obtain ⟨entry, hmem, hlive⟩ := Option.bind_eq_some_iff.mp hjson
      obtain ⟨hlive, hdata⟩ := Option.ite_none_right_eq_some.mp hlive
      have hcame := hs.timestamps lookup' hlookup'
      refine .entry hmem ?_ heq (by omega)
      rw [Option.some.inj hdata]
      exact hentry
  · exact .reply hcall hstats heq (by omega)

/-- A call has its rows from before, or has just read them. -/
theorem held_row (hs : Inv service s) (h : Steps env service s e t) {call : Call} {row : Url}
    {time : ℕ} (hcall : call ∈ t.calls) (hrow : row ∈ call.urls) (hread : call.readAt ≤ time)
    (hupTo : time ≤ upTo) (hshows : Shows env service call.shardId row time url)
    (hsince : since ≤ call.readAt) :
    Held env service delay upTo s url since ∨ Source env service upTo s url since := by
  cases h with
  | @read q ids lookup request shortIds urls hq hstage hparse hurls =>
    rcases List.mem_append.mp hcall with hcall | hcall
    · exact .inl (.row hcall hrow hread hupTo hshows hsince)
    · obtain rfl := List.mem_singleton.mp hcall
      have hid := mem_ids_of_read hs hq hstage hparse hurls hrow
      exact .inr ⟨_, hs.parsed lookup (List.mem_of_getElem? hq) _ hid,
        ⟨row, (mem_of_getByUrlIds hurls hrow).1, rfl, time, hread, hupTo, hshows⟩, hsince⟩
  | @convert i call' url' urls stats task hi hurls =>
    rcases List.mem_or_eq_of_mem_set hcall with hcall | rfl
    · exact .inl (.row hcall hrow hread hupTo hshows hsince)
    · refine .inl (.row (List.mem_of_getElem? hi) ?_ hread hupTo hshows hsince)
      rw [hurls]
      exact List.mem_cons_of_mem url' hrow
  | reply => exact .inl (.row (List.mem_of_mem_eraseIdx hcall) hrow hread hupTo hshows hsince)
  | replyAgain => exact .inl (.row (List.mem_of_mem_eraseIdx hcall) hrow hread hupTo hshows hsince)
  | lose => exact .inl (.row (List.mem_of_mem_eraseIdx hcall) hrow hread hupTo hshows hsince)
  | _ => exact .inl (.row hcall hrow hread hupTo hshows hsince)

/-- Statistics that are converted in this step come from a row of the call. -/
theorem held_converted (hs : Inv service s) (hupTo : s.now ≤ upTo) {i : ℕ} {call : Call} {row : Url}
    {urls : List Url} {stats : UrlStats} (hi : s.calls[i]? = some call)
    (hurls : call.urls = row :: urls)
    (hstats : convert env call.shardId (instant s.now) row = .ret stats)
    (heq : url = replied service stats ∨ url = cached service stats)
    (hsince : since ≤ call.readAt) : Held env service delay upTo s url since := by
  have hcall := List.mem_of_getElem? hi
  obtain ⟨lookup, -, hserves⟩ := hs.calls call hcall
  refine .row hcall ?_ hserves.read hupTo ⟨stats, hstats, heq⟩ hsince
  rw [hurls]
  exact List.mem_cons_self

theorem held_reply (hs : Inv service s) (hupTo : s.now ≤ upTo) (h : Steps env service s e t)
    {call : Call} {stats : UrlStats} (hcall : call ∈ t.calls)
    (hstats : stats.serialize ∈ call.reply) (heq : url = replied service stats)
    (hsince : since ≤ call.readAt) : Held env service delay upTo s url since := by
  cases h with
  | read =>
    rcases List.mem_append.mp hcall with hcall | hcall
    · exact .reply hcall hstats heq hsince
    · obtain rfl := List.mem_singleton.mp hcall
      cases hstats
  | @convert i call' row urls stats' task hi hurls hconvert =>
    rcases List.mem_or_eq_of_mem_set hcall with hcall | rfl
    · exact .reply hcall hstats heq hsince
    · rcases List.mem_append.mp hstats with hstats | hstats
      · exact .reply (List.mem_of_getElem? hi) hstats heq hsince
      · have hsame : replied service stats = replied service stats' :=
          replied_eq_of_serialize_eq (List.mem_singleton.mp hstats)
        exact held_converted hs hupTo hi hurls hconvert (.inl (heq.trans hsame)) hsince
  | reply => exact .reply (List.mem_of_mem_eraseIdx hcall) hstats heq hsince
  | replyAgain => exact .reply (List.mem_of_mem_eraseIdx hcall) hstats heq hsince
  | lose => exact .reply (List.mem_of_mem_eraseIdx hcall) hstats heq hsince
  | _ => exact .reply hcall hstats heq hsince

theorem held_task (hs : Inv service s) (hupTo : s.now ≤ upTo) (h : Steps env service s e t)
    {task : Task} (htask : task ∈ t.tasks) (heq : url = cached service task.url)
    (hsince : since ≤ task.readAt) : Held env service delay upTo s url since := by
  cases h with
  | @convert i call row urls stats task' hi hurls hconvert hwrites =>
    rcases List.mem_append.mp htask with htask | htask
    · exact .task htask heq hsince
    · obtain rfl := List.mem_singleton.mp htask
      obtain ⟨lookup, -, hserves⟩ := hs.calls call (List.mem_of_getElem? hi)
      have htotal := (hserves.urls row (hurls ▸ List.mem_cons_self)).2
      obtain ⟨rfl, hreadAt, -⟩ := writes_of_convert htotal hconvert hwrites
      exact held_converted hs hupTo hi hurls hconvert (.inr heq) (hreadAt ▸ hsince)
  | run => exact .task (List.mem_of_mem_eraseIdx htask) heq hsince
  | drop => exact .task (List.mem_of_mem_eraseIdx htask) heq hsince
  | _ => exact .task htask heq hsince

theorem held_entry (hs : Inv service s) (hprompt : since = 0 ∨ Prompt delay s e)
    (h : Steps env service s e t) {key : String} {entry : Entry} {stats : UrlStats}
    (hentry : t.entries key = some entry) (his : IsEntry key entry.data stats)
    (heq : url = cached service stats)
    (hsince : since ≤ entry.deadline - (delay + statsDuration)) :
    Held env service delay upTo s url since := by
  cases h with
  | @run k task hk =>
    by_cases hkey : key = task.key
    · subst hkey
      simp only [Function.update_self, Option.some.injEq] at hentry
      subst hentry
      have htask := List.mem_of_getElem? hk
      refine .task htask (heq.trans (his.cached_eq (hs.tasks task htask))) ?_
      rcases hprompt with hzero | hprompt
      · omega
      · have := hprompt k task rfl hk
        dsimp only at hsince
        omega
    · simp only [Function.update_of_ne hkey] at hentry
      exact .entry hentry his heq hsince
  | remove key' =>
    by_cases hkey : key = key'
    · subst hkey
      simp at hentry
    · simp only [Function.update_of_ne hkey] at hentry
      exact .entry hentry his heq hsince
  | _ => exact .entry hentry his heq hsince

/-- **What a step does to copies.** -/
theorem held_step (hs : Inv service s) (hprompt : since = 0 ∨ Prompt delay s e)
    (hupTo : s.now ≤ upTo) (h : step env service s e = some t)
    (hheld : Held env service delay upTo t url since) :
    Held env service delay upTo s url since ∨ Source env service upTo s url since := by
  have h := step_cases h
  cases hheld with
  | lookup hlookup hurl hsince => exact .inl (held_lookup hs h hlookup hurl hsince)
  | row hcall hrow hread hupTo hshows hsince =>
    exact held_row hs h hcall hrow hread hupTo hshows hsince
  | reply hcall hstats heq hsince => exact .inl (held_reply hs hupTo h hcall hstats heq hsince)
  | task htask heq hsince => exact .inl (held_task hs hupTo h htask heq hsince)
  | entry hentry his heq hsince => exact .inl (held_entry hs hprompt h hentry his heq hsince)

/-! ## Main results -/

theorem now_le_step (h : step env service s e = some t) : s.now ≤ t.now := by
  cases step_cases h with
  | tick => exact Nat.le_succ _
  | _ => exact le_rfl

/-- Statistics of a link have its address. -/
theorem Gives.names {id : ShortId} (h : Gives env service upTo s id url) :
    Names service id url := by
  obtain ⟨row, -, hid, time, -, -, stats, hstats, heq⟩ := h
  have hprint : id.toString = .ret stats.shortId := by
    rw [← (convert_eq_ret_iff.mp hstats).1, hid]
  refine ⟨stats.shortId, hprint, ?_⟩
  rcases heq with rfl | rfl
  · rfl
  · rfl

/-- Every copy is one of a row. -/
theorem held_passed {ok : State → Event → Prop} (h : Run (step env service) ok .init es s)
    (hok : ∀ s e, ok s e → (since = 0 ∨ Prompt delay s e) ∧ s.now ≤ upTo)
    (hheld : Held env service delay upTo s url since) :
    Passed (step env service) ok .init es s fun u => Source env service upTo u url since := by
  have hinit : ¬ Held env service delay upTo .init url since := by
    intro hheld
    cases hheld <;> simp_all [State.init]
  have hinv : ∀ s e t, Inv service s → ok s e → step env service s e = some t → Inv service t :=
    fun s e t hs _ hstep => hs.step hstep
  have hstep : ∀ s e t, Inv service s → ok s e → step env service s e = some t →
      Held env service delay upTo t url since →
      Held env service delay upTo s url since ∨ Source env service upTo s url since :=
    fun s e t hs ho hstep hheld => held_step hs (hok s e ho).1 (hok s e ho).2 hstep hheld
  exact h.provenance inv_init (fun hheld => absurd hheld hinit) hinv hstep hheld

/-- Whatever a client gets, a row of a link that he asked for has given it. -/
theorem told_passed {ok : State → Event → Prop} (h : Run (step env service) ok .init es s)
    (hok : ∀ s e, ok s e → since = 0 ∨ Prompt delay s e) {lookup : Lookup}
    (hlookup : lookup ∈ s.lookups) (hurl : lookup.stage.Has url)
    (hsince : since ≤ lookup.timestamp - (delay + statsDuration)) :
    ∃ id ∈ lookup.query.ids, Passed (step env service) ok .init es s fun u =>
      Gives env service s.now u id url ∧ since ≤ u.now := by
  have hs := inv_run h
  have hpassed := held_passed (h.bounded State.now fun _ _ _ => now_le_step)
    (fun u e ho => ⟨hok u e ho.1, ho.2⟩) (.lookup hlookup hurl hsince)
  obtain ⟨id, hid, shortId, hprint, hlink⟩ := (hs.stages lookup hlookup).about url hurl
  refine ⟨id, hid, (hpassed.imp_ok fun _ _ ho => ho.1).mono ?_⟩
  rintro u ⟨id', hparsed, hgives, hnow⟩
  obtain ⟨shortId', hprint', hlink'⟩ := hgives.names
  obtain rfl : shortId = shortId' := service.link_injective (hlink.symm.trans hlink')
  have hsame := hparsed.toString_inj (hs.parsed lookup hlookup id hid) hprint' hprint
  subst hsame
  exact ⟨hgives, hnow⟩

/-- **What a client gets is not old.** If no entry is written later than `delay` after its row
    was read, then the statistics that a client gets are what `Convert` made, on their shard, of
    the row of a link that he asked for, as the row was at most `delay` and the fifteen minutes
    of an entry before he asked; the cache keeps their counts of views only. -/
theorem statistics_recent (h : Run (step env service) (Prompt delay) .init es s) {lookup : Lookup}
    (hlookup : lookup ∈ s.lookups) {reply : Reply} (hreply : lookup.stage = .answered reply)
    (hurl : reply.Has url) :
    ∃ id ∈ lookup.query.ids, Passed (step env service) (Prompt delay) .init es s fun u =>
      Gives env service s.now u id url ∧
        lookup.timestamp ≤ u.now + (delay + statsDuration) := by
  have hhas : lookup.stage.Has url := by
    rw [hreply]
    exact hurl
  obtain ⟨id, hid, hpassed⟩ := told_passed h (fun _ _ ho => .inr ho) hlookup hhas le_rfl
  refine ⟨id, hid, hpassed.mono ?_⟩
  rintro u ⟨hgives, hnow⟩
  exact ⟨hgives, by omega⟩

/-! ## Counts of views -/

/-- Ids are those that rows have been given, and no two rows have the same. -/
structure Shard.Keyed (shard : Shard) : Prop where
  nodup : (shard.rows.map Url.id).Nodup
  known : ∀ url ∈ shard.rows, url.id ∈ shard.ids

/-- No id is given again, and the row of an id counts on. -/
structure Shard.Grows (shard shard' : Shard) : Prop where
  ids : shard.ids ⊆ shard'.ids
  rows : ∀ url' ∈ shard'.rows, url'.id ∈ shard.ids → ∃ url ∈ shard.rows, url.id = url'.id ∧
    url.totalViews ≤ url'.totalViews

theorem Shard.Grows.refl (shard : Shard) : shard.Grows shard :=
  ⟨List.Subset.refl _, fun url hurl _ => ⟨url, hurl, rfl, le_rfl⟩⟩

theorem Shard.Grows.trans {shard shard' shard'' : Shard} (h : shard.Grows shard')
    (h' : shard'.Grows shard'') : shard.Grows shard'' := by
  refine ⟨fun _ hid => h'.ids (h.ids hid), ?_⟩
  intro url'' hurl'' hid
  obtain ⟨url', hurl', heq, hle⟩ := h'.rows url'' hurl'' (h.ids hid)
  rw [← heq] at hid
  obtain ⟨url, hurl, heq', hle'⟩ := h.rows url' hurl' hid
  exact ⟨url, hurl, heq'.trans heq, hle'.trans hle⟩

/-- A row after a statement is new, or was there with as many views or one less. -/
theorem rows_run {shard : Shard} {now : ℤ} {statement : Statement} {url : Url}
    (hurl : url ∈ (shard.run now statement).rows) :
    url.id ∈ newIds statement ∨ ∃ url' ∈ shard.rows, url'.id = url.id ∧
      url'.totalViews ≤ url.totalViews := by
  cases statement with
  | add id userId destinationUrl =>
    rcases List.mem_append.mp hurl with hurl | hurl
    · exact .inr ⟨url, hurl, rfl, le_rfl⟩
    · obtain rfl := List.mem_singleton.mp hurl
      exact .inl (List.mem_singleton_self id)
  | update id userId destinationUrl =>
    obtain ⟨url', hurl', rfl⟩ := List.mem_map.mp hurl
    refine .inr ⟨url', hurl', ?_⟩
    split_ifs
    · exact ⟨rfl, le_rfl⟩
    · exact ⟨rfl, le_rfl⟩
  | incrementVisit id =>
    obtain ⟨url', hurl', rfl⟩ := List.mem_map.mp hurl
    refine .inr ⟨url', hurl', ?_⟩
    split_ifs
    · exact ⟨rfl, by dsimp only; omega⟩
    · exact ⟨rfl, le_rfl⟩
  | delete id userId => exact .inr ⟨url, (List.mem_filter.mp hurl).1, rfl, le_rfl⟩
  | cascade userId => exact .inr ⟨url, (List.mem_filter.mp hurl).1, rfl, le_rfl⟩
  | visit id visits =>
    obtain ⟨url', hurl', rfl⟩ := List.mem_map.mp hurl
    refine .inr ⟨url', hurl', ?_⟩
    split_ifs
    · exact ⟨rfl, le_rfl⟩
    · exact ⟨rfl, le_rfl⟩

theorem grows_run {shard : Shard} {now : ℤ} {statement : Statement}
    (hallows : shard.Allows statement) : shard.Grows (shard.run now statement) := by
  refine ⟨List.subset_append_left _ _, ?_⟩
  intro url hurl hid
  rcases rows_run hurl with hnew | hold
  · cases statement with
    | add id => exact absurd hid (List.mem_singleton.mp hnew ▸ hallows)
    | _ => cases hnew
  · exact hold

/-- The ids of the rows stay, or lose some, or get a new one. -/
theorem Shard.Keyed.run {shard : Shard} {now : ℤ} {statement : Statement} (h : shard.Keyed)
    (hallows : shard.Allows statement) : (shard.run now statement).Keyed := by
  refine ⟨?_, ?_⟩
  · have hsame : ∀ (p : Url → Prop) [DecidablePred p] (f : Url → Url), (∀ url, (f url).id = url.id) →
        ((shard.rows.map fun url => if p url then f url else url).map Url.id).Nodup := by
      intro p _ f hf
      have hids : (shard.rows.map fun url => if p url then f url else url).map Url.id =
          shard.rows.map Url.id := by
        rw [List.map_map]
        refine List.map_congr_left fun url _ => ?_
        show (if p url then f url else url).id = url.id
        split_ifs
        · exact hf url
        · rfl
      rw [hids]
      exact h.nodup
    cases statement with
    | add id userId destinationUrl =>
      show ((shard.rows ++ [_]).map Url.id).Nodup
      rw [List.map_append, List.nodup_append]
      refine ⟨h.nodup, List.nodup_singleton _, ?_⟩
      rintro id' hid' id'' hid'' rfl
      obtain ⟨url, hurl, rfl⟩ := List.mem_map.mp hid'
      have hid : url.id = id := List.mem_singleton.mp hid''
      exact hallows (hid ▸ h.known url hurl)
    | update id userId destinationUrl => exact hsame _ _ fun _ => rfl
    | incrementVisit id => exact hsame _ _ fun _ => rfl
    | delete id userId => exact h.nodup.sublist (List.filter_sublist.map Url.id)
    | cascade userId => exact h.nodup.sublist (List.filter_sublist.map Url.id)
    | visit id visits => exact hsame _ _ fun _ => rfl
  · intro url hurl
    rcases rows_run hurl with hnew | ⟨url', hurl', hid, -⟩
    · exact List.mem_append_right _ hnew
    · rw [← hid]
      exact List.mem_append_left _ (h.known url' hurl')

/-- A step leaves a shard alone or runs one statement on it. -/
theorem shard_cases (h : step env service s e = some t) (r : ℤ) :
    t.shards r = s.shards r ∨ ∃ statement, (s.shards r).Allows statement ∧
      t.shards r = (s.shards r).run (instant s.now) statement := by
  cases step_cases h with
  | @statement r' statement hallows =>
    by_cases hr : r = r'
    · subst hr
      exact .inr ⟨statement, hallows, Function.update_self ..⟩
    · exact .inl (Function.update_of_ne hr ..)
  | _ => exact .inl rfl

theorem keyed_run {ok : State → Event → Prop} (h : Run (step env service) ok .init es s) (r : ℤ) :
    (s.shards r).Keyed := by
  apply h.invariant
  · constructor <;> simp [State.init]
  · intro s e t hs _ hstep
    rcases shard_cases hstep r with heq | ⟨statement, hallows, heq⟩
    · rw [heq]
      exact hs
    · rw [heq]
      exact hs.run hallows

theorem grows_of_run {ok : State → Event → Prop} (h : Run (step env service) ok s es t) (r : ℤ) :
    (s.shards r).Grows (t.shards r) := by
  apply h.invariant
  · exact .refl _
  · intro u e v hu _ hstep
    rcases shard_cases hstep r with heq | ⟨statement, hallows, heq⟩
    · rw [heq]
      exact hu
    · rw [heq]
      exact hu.trans (grows_run hallows)

/-- **No client is told too many views.** The `TotalViews` that a client gets of a link, from the
    shard or from the cache, however old, are at most those of its row now, if the link is still
    there. -/
theorem totalViews_not_overstated {ok : State → Event → Prop}
    (h : Run (step env service) ok .init es s) {lookup : Lookup} (hlookup : lookup ∈ s.lookups)
    {reply : Reply} (hreply : lookup.stage = .answered reply) (hurl : reply.Has url) :
    ∃ id ∈ lookup.query.ids, Names service id url ∧
      ∀ row ∈ (s.shards id.range).rows, row.id = id.index → url.totalViews ≤ row.totalViews := by
  have hhas : lookup.stage.Has url := by
    rw [hreply]
    exact hurl
  have hsince : 0 ≤ lookup.timestamp - (0 + statsDuration) := Nat.zero_le _
  obtain ⟨id, hid, es₁, es₂, u, rfl, h₁, h₂, hgives, -⟩ :=
    told_passed h (fun _ _ _ => .inl rfl) hlookup hhas hsince
  refine ⟨id, hid, hgives.names, ?_⟩
  obtain ⟨row, hrow, hrowid, time, -, -, stats, hstats, heq⟩ := hgives
  intro row' hrow' hrowid'
  have hkeyed := keyed_run h₁ id.range
  have hknown : row'.id ∈ (u.shards id.range).ids := by
    rw [hrowid', ← hrowid]
    exact hkeyed.known row hrow
  obtain ⟨row'', hrow'', hsame, hle⟩ := (grows_of_run h₂ id.range).rows row' hrow' hknown
  obtain rfl : row'' = row := List.inj_on_of_nodup_map hkeyed.nodup hrow'' hrow
    (hsame.trans (hrowid'.trans hrowid.symm))
  have htotal : url.totalViews = stats.totalViews := by
    rcases heq with rfl | rfl
    · rfl
    · rfl
  rw [htotal, (convert_eq_ret_iff.mp hstats).2.2.1]
  exact hle

/-! ## Two clients -/

section

variable {id : ShortId} {shortId : String} {stats : UrlStats} {cache : String → Option Json}

theorem getUrlStatsKey_of_parse (h : parseId shortId = .ret id) :
    getUrlStatsKey id = .ret (urlStatsKey shortId) := by
  rw [getUrlStatsKey, toString_of_parseId h]
  rfl

theorem lookUp_miss (h : parseId shortId = .ret id) (hmiss : cache (urlStatsKey shortId) = none) :
    (Query.getById id).lookUp service cache = .ret (.asking ⟨id.range, ∅, [shortId]⟩) := by
  simp only [Query.lookUp, getUrlStatsKey_of_parse h, Exec.ret_bind, hmiss, toString_of_parseId h]
  rfl

theorem lookUp_hit (h : parseId shortId = .ret id) {json : Json}
    (hhit : cache (urlStatsKey shortId) = some json)
    (hentry : IsEntry (urlStatsKey shortId) json stats) :
    (Query.getById id).lookUp service cache = .ret (.answered (.url (cached service stats))) := by
  have hread : readValue urlStatsContract.converter.read (cache (urlStatsKey shortId)) =
      .ret (some stats.cached.toObject) := by
    rw [hhit]
    exact hentry.read
  simp only [Query.lookUp, getUrlStatsKey_of_parse h, Exec.ret_bind, hread, hentry.ofStats]
  rfl

theorem finish_getById (hcode : IsCode stats.shortId) (urls : ByShortUrl) :
    (Query.getById id).finish service urls [stats.serialize] =
      some (.ret (.url (replied service stats))) := by
  have hstats : Dtos.UrlStats.ofStats service stats.copied.toObject =
      .ret (replied service stats) := ofStats_eq stats.copied hcode
  simp only [Query.finish, UrlStats.ofGrpc_serialize, Exec.ret_bind, hstats]
  rfl

theorem updateUrlStatsCache_eq (h : parseId stats.shortId = .ret id) (readAt : ℕ) :
    updateUrlStatsCache stats readAt = .ret ⟨urlStatsKey stats.shortId, stats, readAt⟩ := by
  rw [updateUrlStatsCache, h, Exec.ret_bind, getUrlStatsKey_of_parse h]
  rfl

end

/-- The first link of shard 1. -/
def firstRow : Url := ⟨1, "https://example.com/1", 7, 0, [], 0⟩

/-- The link after a visit. -/
def visitedRow : Url := { firstRow with totalViews := 1, updatedAt := instant 1200000 }

/-- The links are below https://example.org/. -/
def exampleService : ShortUrlService := ⟨"https", "example.org"⟩

theorem parseId_firstRow : parseId "1LafLC9" = .ret ⟨1, 1⟩ := by decide +kernel

theorem convert_firstRow :
    ∃ stats, convert .invariantMode 1 (instant 600000) firstRow = .ret stats ∧
      stats.shortId = "1LafLC9" ∧ stats.InRange := by
  have hreturns : (convert .invariantMode 1 (instant 600000) firstRow).Returns := by
    decide +kernel
  obtain ⟨stats, hstats⟩ := hreturns
  have hprint : ShortId.toString ⟨1, 1⟩ = .ret stats.shortId := (convert_eq_ret_iff.mp hstats).1
  exact ⟨stats, hstats, Exec.ret.inj (hprint.symm.trans (toString_of_parseId parseId_firstRow)),
    inRange_of_convert (by decide) hstats⟩

/-- Runs whose work items are done at once. -/
abbrev Runs (es : List Event) (s : State) : Prop :=
  Run (step .invariantMode exampleService) (Prompt 0) .init es s

theorem prompt_of_ne {s : State} {e : Event} (h : ∀ k, e ≠ .run k) : Prompt delay s e :=
  fun k _ he => absurd he (h k)

theorem Runs.statement (h : Runs es s) {r : ℤ} {statement : Statement}
    (hallows : (s.shards r).Allows statement) :
    Runs (es ++ [.statement r statement])
      { s with
        shards := Function.update s.shards r ((s.shards r).run (instant s.now) statement) } := by
  refine h.snoc (prompt_of_ne (by simp)) ?_
  simp only [step, if_pos hallows]

theorem Runs.lookUp (h : Runs es s) {q : ℕ} {lookup : Lookup} {stage : Stage}
    (hq : s.lookups[q]? = some lookup) (hstage : lookup.stage = .looking)
    (hret : lookup.query.lookUp exampleService s.cache = .ret stage)
    (ht : s.setStage q lookup stage = t) : Runs (es ++ [.lookUp q]) t := by
  refine h.snoc (prompt_of_ne (by simp)) ?_
  simp only [step, hq, hstage, hret, ← ht]
  rfl

theorem Runs.read (h : Runs es s) {q : ℕ} {ids : List ℤ} {lookup : Lookup} {request : Request}
    {shortIds : List ShortId} {urls : List Url} (hq : s.lookups[q]? = some lookup)
    (hstage : lookup.stage = .asking request)
    (hparse : request.shortIds.mapM parseId = .ret shortIds)
    (hurls : (s.shards request.shardId).getByUrlIds (shortIds.map ShortId.index) ids = some urls)
    (ht : { s with calls := s.calls ++ [⟨q, request.shardId, s.now, urls, []⟩] } = t) :
    Runs (es ++ [.read q ids]) t := by
  refine h.snoc (prompt_of_ne (by simp)) ?_
  simp only [step, hq, hstage, hparse, hurls, Option.map_some, ht]

theorem Runs.convert (h : Runs es s) {i : ℕ} {call : Call} {url : Url} {urls : List Url}
    {stats : UrlStats} {task : Task} (hi : s.calls[i]? = some call)
    (hurls : call.urls = url :: urls)
    (hstats : Stats.convert .invariantMode call.shardId (instant s.now) url = .ret stats)
    (htask : updateUrlStatsCache stats call.readAt = .ret task)
    (ht : { s with
      calls := s.calls.set i { call with urls := urls, reply := call.reply ++ [stats.serialize] }
      tasks := s.tasks ++ [task] } = t) :
    Runs (es ++ [.convert i]) t := by
  refine h.snoc (prompt_of_ne (by simp)) ?_
  simp only [step, hi, hurls, hstats, htask, ht]

theorem Runs.reply (h : Runs es s) {i : ℕ} {call : Call} {lookup : Lookup} {request : Request}
    {reply : Reply} (hi : s.calls[i]? = some call) (hurls : call.urls = [])
    (hq : s.lookups[call.lookup]? = some lookup) (hstage : lookup.stage = .asking request)
    (hreply : lookup.query.finish exampleService request.urls call.reply = some (.ret reply))
    (ht : { s.setStage call.lookup lookup (.answered reply) with calls := s.calls.eraseIdx i } = t) :
    Runs (es ++ [.reply i]) t := by
  refine h.snoc (prompt_of_ne (by simp)) ?_
  simp only [step, hi, hurls, hq, hstage, hreply, Option.map_some, ← ht]
  rfl

theorem Runs.getById (h : Runs es s) {shortId : String} {id : ShortId}
    (hparse : parseId shortId = .ret id) :
    Runs (es ++ [.getById shortId]) (s.addLookup (.getById id)) := by
  refine h.snoc (prompt_of_ne (by simp)) ?_
  simp only [step, hparse]

theorem Runs.ticks {shards : ℤ → Shard} {now : ℕ} {entries : String → Option Entry}
    {lookups : List Lookup} {calls : List Call} {tasks : List Task}
    (h : Runs es ⟨shards, now, entries, lookups, calls, tasks⟩) (n : ℕ) :
    Runs (es ++ List.replicate n .tick) ⟨shards, now + n, entries, lookups, calls, tasks⟩ :=
  Run.replicate (f := fun n => ⟨shards, now + n, entries, lookups, calls, tasks⟩) h
    (fun _ => prompt_of_ne (by simp)) (fun _ => rfl) n

/-- A first client comes after ten minutes and gets the reply of the shard, and the entry is
    written. Then the link is visited, and a second one gets the entry after ten more minutes. -/
theorem run_twoClients :
    ∃ es s stats, Runs es s ∧
      s.lookups = [⟨.getById ⟨1, 1⟩, 600000, .answered (.url (replied exampleService stats))⟩,
        ⟨.getById ⟨1, 1⟩, 1200000, .answered (.url (cached exampleService stats))⟩] ∧
      (s.shards 1).rows = [visitedRow] := by
  obtain ⟨stats, hstats, hshort, hrange⟩ := convert_firstRow
  have hparse : parseId stats.shortId = .ret ⟨1, 1⟩ := hshort ▸ parseId_firstRow
  have hcode : IsCode stats.shortId := isCode_of_parseId hparse
  have hrequest : [stats.shortId].mapM parseId = .ret [⟨1, 1⟩] := by
    rw [Exec.mapM_eq_ret_iff]
    exact .cons hparse .nil
  have hentry : IsEntry (urlStatsKey stats.shortId) (urlStatsContract.serialize stats.toObject)
      stats := ⟨rfl, hcode, hrange, rfl⟩
  let asking : Lookup := ⟨.getById ⟨1, 1⟩, 600000, .asking ⟨1, ∅, [stats.shortId]⟩⟩
  let answered : Lookup :=
    ⟨.getById ⟨1, 1⟩, 600000, .answered (.url (replied exampleService stats))⟩
  let looking : Lookup := ⟨.getById ⟨1, 1⟩, 1200000, .looking⟩
  let task : Task := ⟨urlStatsKey stats.shortId, stats, 600000⟩
  let entries : String → Option Entry := Function.update (fun _ => none) (urlStatsKey stats.shortId)
    (some ⟨urlStatsContract.serialize stats.toObject, 600000 + statsDuration⟩)
  obtain ⟨shards, hone, h1⟩ : ∃ shards, shards 1 = ⟨[firstRow], [1]⟩ ∧
      Runs [.statement 1 (.add 1 7 "https://example.com/1")] ⟨shards, 0, fun _ => none, [], [], []⟩ :=
    ⟨_, rfl, .single (prompt_of_ne (by simp)) rfl⟩
  have hrows : (shards 1).getByUrlIds [1] [1] = some [firstRow] := by
    rw [hone]
    rfl
  have h2 : Runs _ ⟨shards, 600000, fun _ => none, [], [], []⟩ := h1.ticks 600000
  have h3 := h2.getById hparse
  have h4 : Runs _ ⟨shards, 600000, fun _ => none, [asking], [], []⟩ :=
    h3.lookUp (q := 0) rfl rfl (lookUp_miss hparse rfl) rfl
  have h5 : Runs _ ⟨shards, 600000, fun _ => none, [asking], [⟨0, 1, 600000, [firstRow], []⟩], []⟩ :=
    h4.read (q := 0) rfl rfl hrequest hrows rfl
  have h6 : Runs _ ⟨shards, 600000, fun _ => none, [asking],
      [⟨0, 1, 600000, [], [stats.serialize]⟩], [task]⟩ :=
    h5.convert (i := 0) rfl rfl hstats (updateUrlStatsCache_eq hparse 600000) rfl
  have h7 : Runs _ ⟨shards, 600000, fun _ => none, [answered], [], [task]⟩ :=
    h6.reply (i := 0) rfl rfl rfl rfl (finish_getById hcode ∅) rfl
  have hprompt : Prompt 0 ⟨shards, 600000, fun _ => none, [answered], [], [task]⟩ (.run 0) := by
    intro k task' he htask'
    cases he
    obtain rfl : task = task' := Option.some.inj htask'
    exact le_rfl
  have h8 : Runs _ ⟨shards, 600000, entries, [answered], [], []⟩ :=
    h7.snoc (e := .run 0) hprompt rfl
  have h9 : Runs _ ⟨shards, 1200000, entries, [answered], [], []⟩ := h8.ticks 600000
  have hallows : (shards 1).Allows (.incrementVisit 1) := by
    rw [hone]
    decide
  have h10 : Runs _ ⟨Function.update shards 1 ((shards 1).run (instant 1200000) (.incrementVisit 1)),
      1200000, entries, [answered], [], []⟩ := h9.statement hallows
  have htwo : Function.update shards 1 ((shards 1).run (instant 1200000) (.incrementVisit 1)) 1 =
      ⟨[visitedRow], [1]⟩ := by
    rw [Function.update_self, hone]
    rfl
  generalize Function.update shards 1 ((shards 1).run (instant 1200000) (.incrementVisit 1)) =
    shards' at h10 htwo
  have h11 := h10.getById hparse
  have hhit : (State.mk shards' 1200000 entries [answered, looking] [] []).cache
      (urlStatsKey stats.shortId) = some (urlStatsContract.serialize stats.toObject) := by
    simp [State.cache, entries, statsDuration]
  have h12 := h11.lookUp (q := 1) rfl rfl (lookUp_hit hparse hhit hentry) rfl
  refine ⟨_, _, stats, h12, rfl, ?_⟩
  show (shards' 1).rows = [visitedRow]
  rw [htwo]

/-- The second client is told of the row as it was five minutes after the start or later. -/
theorem statistics_recent_twoClients :
    ∃ es s url, Runs es s ∧ ⟨.getById ⟨1, 1⟩, 1200000, .answered (.url url)⟩ ∈ s.lookups ∧
      ∃ id ∈ [(⟨1, 1⟩ : ShortId)], Passed (step .invariantMode exampleService) (Prompt 0)
        .init es s fun u => Gives .invariantMode exampleService s.now u id url ∧
          1200000 ≤ u.now + (0 + statsDuration) := by
  obtain ⟨es, s, stats, h, hlookups, -⟩ := run_twoClients
  have hlookup : ⟨.getById ⟨1, 1⟩, 1200000, .answered (.url (cached exampleService stats))⟩ ∈
      s.lookups := by
    simp [hlookups]
  exact ⟨es, s, _, h, hlookup, statistics_recent h hlookup rfl rfl⟩

/-- The second client is told of fewer views than the link has. -/
theorem totalViews_not_overstated_twoClients :
    ∃ es s url, Runs es s ∧ ⟨.getById ⟨1, 1⟩, 1200000, .answered (.url url)⟩ ∈ s.lookups ∧
      visitedRow ∈ (s.shards 1).rows ∧ Names exampleService ⟨1, 1⟩ url ∧
      url.totalViews ≤ visitedRow.totalViews := by
  obtain ⟨es, s, stats, h, hlookups, hrows⟩ := run_twoClients
  have hlookup : ⟨.getById ⟨1, 1⟩, 1200000, .answered (.url (cached exampleService stats))⟩ ∈
      s.lookups := by
    simp [hlookups]
  have hrow : visitedRow ∈ (s.shards 1).rows := hrows ▸ List.mem_singleton_self visitedRow
  obtain ⟨id, hid, hnames, hle⟩ := totalViews_not_overstated h hlookup rfl rfl
  obtain rfl := List.mem_singleton.mp hid
  exact ⟨es, s, _, h, hlookup, hrow, hnames, hle visitedRow hrow rfl⟩

end Shortener.Urls.Lookups
