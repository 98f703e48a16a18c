import Shortener.Links.Owner
import Shortener.Links.ShortIdRule
import Shortener.Stats.Redirects

/-!
# Redirects

The whole path of a visitor: the redirect frontend
(`Shortener.RedirectFrontend/Controllers/RedirectController.cs` and
`Shortener.RedirectFrontend/Services/RedirectService.cs`), the entries `Url-Mapping:` of Redis,
`Redirect` and `NotifyRedirect` of the shards
(`Shortener.GrpcBackend/Services/UrlService.cs`, lines 83–108, 337–345 and 358–374), and the
work items that both sides enqueue, beside the clients that create, change and delete links.
A request may reach its shard again, the work items of all processes run in any order, and
any call may be lost with its process.

* `step_iff`: the steps, case by case.
* `Inv.step`: which link each party works on.
-/

namespace Shortener.Redirects

open Shortener.Common Shortener.DotNet Shortener.Codec Shortener.Links Shortener.Stats

/-! ## State -/

/-- `CacheUtils.GetUrlMappingKey`. -/
def getUrlMappingKey (shortId : ShortId) : Exec String := do
  return "Url-Mapping:" ++ (← shortId.toString)

/-- `TimeSpan.FromMinutes(5)` in milliseconds, the unit of the clock. -/
def mappingDuration : ℕ := 300000

/-- An entry of Redis; it is there before `deadline`. -/
structure Entry where
  data : String
  deadline : ℕ
  deriving DecidableEq, Repr

/-- `RedirectRequest`. Its other fields are for the rows of `Visit`. -/
structure RedirectRequest where
  shortId : String
  timestamp : ℕ
  deriving DecidableEq, Repr

/-- How far `RedirectService.Redirect` has come. -/
inductive Stage
  /-- before `GetString` -/
  | looking
  /-- before `NotifyRedirectInBackground` -/
  | found (cachedUrl : String)
  /-- in `RedirectAsync` -/
  | asking
  | answered (destinationUrl : String)
  | failed
  deriving DecidableEq, Repr

/-- A visitor of a link, and how far the frontend has come with him. -/
structure Visitor where
  id : ShortId
  request : RedirectRequest
  stage : Stage
  deriving DecidableEq, Repr

/-- The work items. Only proofs use `readAt`, the time at which the row was read. -/
inductive Task
  | notifyRedirect (shortId : String)
  | incrementVisit (shardId : ℤ) (shortId : String)
  | setString (key data : String) (readAt : ℕ)
  deriving DecidableEq, Repr

/-- A call of `Redirect` that has read its row, with the work items it still has to enqueue. -/
structure Call where
  visitor : ℕ
  request : RedirectRequest
  destinationUrl : String
  tasks : List Task
  deriving DecidableEq, Repr

/-- The shards, the cache, the visitors, and what is in progress. -/
structure State where
  links : Links.State
  now : ℕ
  entries : String → Option Entry
  visitors : List Visitor
  calls : List Call
  /-- the work items that have been enqueued -/
  tasks : List Task

/-- No links, no visitors, and nothing cached. -/
def State.init : State := ⟨.init, 0, fun _ => none, [], [], []⟩

/-! ## Steps -/

/-- What can happen next. -/
inductive Event
  /-- A step of those who change links. -/
  | links (e : Owner.Event)
  /-- `UserRepository.Delete`, which takes the links of the user along. -/
  | deleteUser (shardId userId : ℤ)
  | tick
  /-- A visitor comes; `isOnline` is what the frontend knows of the shards. -/
  | visit (shortId : String) (isOnline : ℤ → Bool)
  /-- `GetString` for visitor `v`. -/
  | getString (v : ℕ)
  /-- `NotifyRedirectInBackground` for visitor `v`. -/
  | notify (v : ℕ)
  /-- The request of visitor `v` fails. -/
  | fail (v : ℕ)
  /-- The request of visitor `v` reaches its shard, and `Redirect` reads the row. -/
  | redirect (v : ℕ)
  /-- Call `i` enqueues its next work item. -/
  | enqueue (i : ℕ)
  /-- Call `i` has enqueued its work items and replies. -/
  | reply (i : ℕ)
  /-- Call `i` is lost. -/
  | lose (i : ℕ)
  /-- Work item `k` runs. -/
  | run (k : ℕ)
  /-- Work item `k` runs and is tried again. -/
  | retry (k : ℕ)
  /-- Work item `k` is lost. -/
  | drop (k : ℕ)
  /-- An entry is removed, by Redis or by a work item of `Update` or `Delete`. -/
  | remove (key : String)

/-- `RedirectController.Index` as far as `Redirect`; nothing for a visitor who is sent to the
    home page. -/
def index (isOnline : ℤ → Bool) (shortId : String) : Exec (Option ShortId) :=
  if ¬ shortIdRule shortId then return none
  else do
    let id ← parseId shortId
    return if isOnline id.range then some id else none

/-- What `StringGetAsync` returns. -/
def State.getString (s : State) (key : String) : Option String :=
  (s.entries key).bind fun entry => if s.now < entry.deadline then some entry.data else none

/-- The frontend has come further with visitor `v`. -/
def State.setStage (s : State) (v : ℕ) (visitor : Visitor) (stage : Stage) : State :=
  { s with visitors := s.visitors.set v { visitor with stage := stage } }

/-- The tables of a shard change. -/
def State.setDatabase (s : State) (shardId : ℤ) (database : Database) : State :=
  { s with links := s.links.setShard shardId { s.links.shards shardId with database := database } }

/-- The work items of a call of `Redirect` on `shardId` that has read `url`. -/
def redirectTasks (s : State) (shardId : ℤ) (shortId : String) (url : UrlRow) : Exec (List Task) := do
  let key ← getUrlMappingKey ⟨shardId, url.id⟩
  return [.incrementVisit shardId shortId, .setString key url.destinationUrl s.now]

/-- `Redirect` of `shardId` as far as its work items. -/
def redirect (s : State) (shardId : ℤ) (shortId : String) : Option (String × List Task) :=
  match parseId shortId with
  | .ret id =>
    match (s.links.shards shardId).database.getByUrlId id.index with
    | .ok (some url) =>
      match redirectTasks s shardId shortId url with
      | .ret tasks => some (url.destinationUrl, tasks)
      | _ => none
    | _ => none
  | _ => none

/-- The body of a work item. -/
def Task.run (s : State) : Task → Option State
  | .notifyRedirect shortId =>
    match parseId shortId with
    | .ret id => some { s with tasks := s.tasks ++ [.incrementVisit id.range shortId] }
    | _ => none
  | .incrementVisit shardId shortId =>
    match parseId shortId with
    | .ret id =>
      let database := (s.links.shards shardId).database
      if HasRoom database id.index then
        some (s.setDatabase shardId (database.incrementVisit id.index))
      else none
    | _ => none
  | .setString key data _ =>
    some { s with
      entries := Function.update s.entries key (some ⟨data, s.now + mappingDuration⟩) }

/-- Redirects are counted by work items only. -/
def IsCount : Owner.Event → Prop
  | .shard _ (.incrementVisit _) => True
  | _ => False

instance : DecidablePred IsCount := fun e => by
  unfold IsCount
  split <;> infer_instance

/-- `OnDelete(DeleteBehavior.Cascade)`. -/
def Database.deleteUser (db : Database) (userId : ℤ) : Database :=
  { db with urls := db.urls.filter fun url => url.userId ≠ userId }

/-- A step of the system. -/
def step (env : Globalization) (tryCreate : String → Option Uri) (s : State) : Event → Option State
  | .links e =>
    if IsCount e then none
    else (Owner.step env tryCreate s.links e).map fun links => { s with links := links }
  | .deleteUser shardId userId =>
    some (s.setDatabase shardId (Database.deleteUser (s.links.shards shardId).database userId))
  | .tick => some { s with now := s.now + 1 }
  | .visit shortId isOnline =>
    match index isOnline shortId with
    | .ret (some id) =>
      match id.toString with
      | .ret shortId =>
        some { s with visitors := s.visitors ++ [⟨id, ⟨shortId, s.now⟩, .looking⟩] }
      | _ => some s
    | _ => some s
  | .getString v =>
    match s.visitors[v]? with
    | some visitor =>
      match visitor.stage, getUrlMappingKey visitor.id with
      | .looking, .ret key =>
        some (s.setStage v visitor ((s.getString key).elim .asking .found))
      | _, _ => none
    | none => none
  | .notify v =>
    match s.visitors[v]? with
    | some visitor =>
      match visitor.stage with
      | .found cachedUrl =>
        let s := s.setStage v visitor (.answered cachedUrl)
        some { s with tasks := s.tasks ++ [.notifyRedirect visitor.request.shortId] }
      | _ => none
    | none => none
  | .fail v =>
    match s.visitors[v]? with
    | some visitor =>
      match visitor.stage with
      | .answered _ => none
      | _ => some (s.setStage v visitor .failed)
    | none => none
  | .redirect v =>
    match s.visitors[v]? with
    | some visitor =>
      if visitor.stage = .asking then
        (redirect s visitor.id.range visitor.request.shortId).map fun (destinationUrl, tasks) =>
          { s with calls := s.calls ++ [⟨v, visitor.request, destinationUrl, tasks⟩] }
      else none
    | none => none
  | .enqueue i =>
    match s.calls[i]? with
    | some call =>
      match call.tasks with
      | task :: tasks =>
        some { s with
          calls := s.calls.set i { call with tasks := tasks }
          tasks := s.tasks ++ [task] }
      | [] => none
    | none => none
  | .reply i =>
    match s.calls[i]? with
    | some call =>
      match call.tasks, s.visitors[call.visitor]? with
      | [], some visitor =>
        let s := { s with calls := s.calls.eraseIdx i }
        -- nobody waits for the reply of a call that was made again
        if visitor.stage = .asking then
          some (s.setStage call.visitor visitor (.answered call.destinationUrl))
        else some s
      | _, _ => none
    | none => none
  | .lose i => some { s with calls := s.calls.eraseIdx i }
  | .run k =>
    match s.tasks[k]? with
    | some task => task.run { s with tasks := s.tasks.eraseIdx k }
    | none => none
  | .retry k =>
    match s.tasks[k]? with
    | some (.notifyRedirect shortId) => Task.run s (.notifyRedirect shortId)
    | _ => none
  | .drop k => some { s with tasks := s.tasks.eraseIdx k }
  | .remove key => some { s with entries := Function.update s.entries key none }

/-- Nothing is lost, and nothing is tried again. -/
def Faultless (s : State) : Event → Prop
  | .fail _ => False
  | .lose _ => False
  | .retry _ => False
  | .drop _ => False
  | .redirect v => ∀ call ∈ s.calls, call.visitor ≠ v
  | _ => True

/-! ## What a step does -/

variable {env : Globalization} {tryCreate : String → Option Uri} {s t : State} {e : Event}

/-- The steps, case by case. -/
inductive Steps (env : Globalization) (tryCreate : String → Option Uri) (s : State) :
    Event → State → Prop
  | links {e : Owner.Event} {links : Links.State} : ¬ IsCount e →
      Owner.step env tryCreate s.links e = some links →
      Steps env tryCreate s (.links e) { s with links := links }
  | deleteUser (shardId userId : ℤ) :
      Steps env tryCreate s (.deleteUser shardId userId)
        (s.setDatabase shardId (Database.deleteUser (s.links.shards shardId).database userId))
  | tick : Steps env tryCreate s .tick { s with now := s.now + 1 }
  | visit {text shortId : String} {isOnline : ℤ → Bool} {id : ShortId} :
      index isOnline text = .ret (some id) → id.toString = .ret shortId →
      Steps env tryCreate s (.visit text isOnline)
        { s with visitors := s.visitors ++ [⟨id, ⟨shortId, s.now⟩, .looking⟩] }
  | home {text : String} {isOnline : ℤ → Bool} :
      (∀ id shortId, index isOnline text = .ret (some id) → id.toString ≠ .ret shortId) →
      Steps env tryCreate s (.visit text isOnline) s
  | getString {v : ℕ} {visitor : Visitor} {key : String} : s.visitors[v]? = some visitor →
      visitor.stage = .looking → getUrlMappingKey visitor.id = .ret key →
      Steps env tryCreate s (.getString v)
        (s.setStage v visitor ((s.getString key).elim .asking .found))
  | notify {v : ℕ} {visitor : Visitor} {cachedUrl : String} : s.visitors[v]? = some visitor →
      visitor.stage = .found cachedUrl →
      Steps env tryCreate s (.notify v)
        { s.setStage v visitor (.answered cachedUrl) with
          tasks := s.tasks ++ [.notifyRedirect visitor.request.shortId] }
  | fail {v : ℕ} {visitor : Visitor} : s.visitors[v]? = some visitor →
      (∀ destinationUrl, visitor.stage ≠ .answered destinationUrl) →
      Steps env tryCreate s (.fail v) (s.setStage v visitor .failed)
  | redirect {v : ℕ} {visitor : Visitor} {destinationUrl : String} {tasks : List Task} :
      s.visitors[v]? = some visitor → visitor.stage = .asking →
      Redirects.redirect s visitor.id.range visitor.request.shortId =
        some (destinationUrl, tasks) →
      Steps env tryCreate s (.redirect v)
        { s with calls := s.calls ++ [⟨v, visitor.request, destinationUrl, tasks⟩] }
  | enqueue {i : ℕ} {call : Call} {task : Task} {tasks : List Task} : s.calls[i]? = some call →
      call.tasks = task :: tasks →
      Steps env tryCreate s (.enqueue i)
        { s with
          calls := s.calls.set i { call with tasks := tasks }
          tasks := s.tasks ++ [task] }
  | reply {i : ℕ} {call : Call} {visitor : Visitor} : s.calls[i]? = some call →
      call.tasks = [] → s.visitors[call.visitor]? = some visitor → visitor.stage = .asking →
      Steps env tryCreate s (.reply i)
        { s.setStage call.visitor visitor (.answered call.destinationUrl) with
          calls := s.calls.eraseIdx i }
  | replyAgain {i : ℕ} {call : Call} {visitor : Visitor} : s.calls[i]? = some call →
      call.tasks = [] → s.visitors[call.visitor]? = some visitor → visitor.stage ≠ .asking →
      Steps env tryCreate s (.reply i) { s with calls := s.calls.eraseIdx i }
  | lose (i : ℕ) : Steps env tryCreate s (.lose i) { s with calls := s.calls.eraseIdx i }
  | notifyRedirect {k : ℕ} {shortId : String} {id : ShortId} :
      s.tasks[k]? = some (.notifyRedirect shortId) → parseId shortId = .ret id →
      Steps env tryCreate s (.run k)
        { s with tasks := s.tasks.eraseIdx k ++ [.incrementVisit id.range shortId] }
  | incrementVisit {k : ℕ} {shardId : ℤ} {shortId : String} {id : ShortId} :
      s.tasks[k]? = some (.incrementVisit shardId shortId) → parseId shortId = .ret id →
      HasRoom (s.links.shards shardId).database id.index →
      Steps env tryCreate s (.run k)
        { s.setDatabase shardId ((s.links.shards shardId).database.incrementVisit id.index) with
          tasks := s.tasks.eraseIdx k }
  | setString {k : ℕ} {key data : String} {readAt : ℕ} :
      s.tasks[k]? = some (.setString key data readAt) →
      Steps env tryCreate s (.run k)
        { s with
          entries := Function.update s.entries key (some ⟨data, s.now + mappingDuration⟩)
          tasks := s.tasks.eraseIdx k }
  | retry {k : ℕ} {shortId : String} {id : ShortId} :
      s.tasks[k]? = some (.notifyRedirect shortId) → parseId shortId = .ret id →
      Steps env tryCreate s (.retry k)
        { s with tasks := s.tasks ++ [.incrementVisit id.range shortId] }
  | drop (k : ℕ) : Steps env tryCreate s (.drop k) { s with tasks := s.tasks.eraseIdx k }
  | remove (key : String) :
      Steps env tryCreate s (.remove key) { s with entries := Function.update s.entries key none }

theorem Task.run_cases {task : Task} {k : ℕ} (hk : s.tasks[k]? = some task)
    (h : task.run { s with tasks := s.tasks.eraseIdx k } = some t) :
    Steps env tryCreate s (.run k) t := by
  cases task with
  | notifyRedirect shortId =>
    simp only [Task.run] at h
    split at h
    · rename_i id hid
      obtain rfl := Option.some.inj h
      exact .notifyRedirect hk hid
    · cases h
  | incrementVisit shardId shortId =>
    simp only [Task.run] at h
    split at h
    · rename_i id hid
      simp only [Option.ite_none_right_eq_some, Option.some.injEq] at h
      obtain ⟨hroom, rfl⟩ := h
      exact .incrementVisit hk hid hroom
    · cases h
  | setString key data readAt =>
    obtain rfl := Option.some.inj h
    exact .setString hk

theorem step_cases (h : step env tryCreate s e = some t) : Steps env tryCreate s e t := by
  cases e with
  | links e =>
    simp only [step, Option.ite_none_left_eq_some, Option.map_eq_some_iff] at h
    obtain ⟨hcount, links, hlinks, rfl⟩ := h
    exact .links hcount hlinks
  | deleteUser shardId userId =>
    obtain rfl := Option.some.inj h
    exact .deleteUser shardId userId
  | tick =>
    obtain rfl := Option.some.inj h
    exact .tick
  | visit text isOnline =>
    simp only [step] at h
    split at h
    · rename_i id hindex
      split at h
      · rename_i shortId hprint
        obtain rfl := Option.some.inj h
        exact .visit hindex hprint
      · rename_i hprint
        obtain rfl := Option.some.inj h
        refine .home fun id' shortId hindex' hprint' => ?_
        obtain rfl := Option.some.inj (Exec.ret.inj (hindex.symm.trans hindex'))
        exact hprint shortId hprint'
    · rename_i hindex
      obtain rfl := Option.some.inj h
      exact .home fun id shortId hindex' _ => hindex id hindex'
  | getString v =>
    simp only [step] at h
    split at h
    · rename_i visitor hv
      split at h
      · rename_i key hstage hkey
        obtain rfl := Option.some.inj h
        exact .getString hv hstage hkey
      · cases h
    · cases h
  | notify v =>
    simp only [step] at h
    split at h
    · rename_i visitor hv
      split at h
      · rename_i cachedUrl hstage
        obtain rfl := Option.some.inj h
        exact .notify hv hstage
      · cases h
    · cases h
  | fail v =>
    simp only [step] at h
    split at h
    · rename_i visitor hv
      split at h
      · cases h
      · rename_i hstage
        obtain rfl := Option.some.inj h
        exact .fail hv hstage
    · cases h
  | redirect v =>
    simp only [step] at h
    split at h
    · rename_i visitor hv
      simp only [Option.ite_none_right_eq_some, Option.map_eq_some_iff] at h
      obtain ⟨hstage, ⟨destinationUrl, tasks⟩, hredirect, rfl⟩ := h
      exact .redirect hv hstage hredirect
    · cases h
  | enqueue i =>
    simp only [step] at h
    split at h
    · rename_i call hi
      split at h
      · rename_i task tasks htasks
        obtain rfl := Option.some.inj h
        exact .enqueue hi htasks
      · cases h
    · cases h
  | reply i =>
    simp only [step] at h
    split at h
    · rename_i call hi
      split at h
      · rename_i visitor htasks hv
        split_ifs at h with hstage
        · obtain rfl := Option.some.inj h
          exact .reply hi htasks hv hstage
        · obtain rfl := Option.some.inj h
          exact .replyAgain hi htasks hv hstage
      · cases h
    · cases h
  | lose i =>
    obtain rfl := Option.some.inj h
    exact .lose i
  | run k =>
    simp only [step] at h
    split at h
    · rename_i task hk
      exact Task.run_cases hk h
    · cases h
  | retry k =>
    simp only [step, Task.run] at h
    split at h
    · rename_i shortId hk
      split at h
      · rename_i id hid
        obtain rfl := Option.some.inj h
        exact .retry hk hid
      · cases h
    · cases h
  | drop k =>
    obtain rfl := Option.some.inj h
    exact .drop k
  | remove key =>
    obtain rfl := Option.some.inj h
    exact .remove key

theorem step_of_steps (h : Steps env tryCreate s e t) : step env tryCreate s e = some t := by
  cases h with
  | links hcount hlinks => simp only [step, if_neg hcount, hlinks, Option.map_some]
  | deleteUser => rfl
  | tick => rfl
  | visit hindex hprint => simp only [step, hindex, hprint]
  | home hhome =>
    simp only [step]
    split
    · rename_i id hindex
      split
      · rename_i shortId hprint
        exact absurd hprint (hhome id shortId hindex)
      · rfl
    · rfl
  | getString hv hstage hkey => simp only [step, hv, hstage, hkey]
  | notify hv hstage =>
    simp only [step, hv, hstage]
    rfl
  | fail hv hstage => simp only [step, hv]
  | redirect hv hstage hredirect => simp only [step, hv, hstage, hredirect, if_true, Option.map_some]
  | enqueue hi htasks => simp only [step, hi, htasks]
  | reply hi htasks hv hstage =>
    simp only [step, hi, htasks, hv, hstage, if_true]
    rfl
  | replyAgain hi htasks hv hstage => simp only [step, hi, htasks, hv, if_neg hstage]
  | lose => rfl
  | notifyRedirect hk hid => simp only [step, hk, Task.run, hid]
  | incrementVisit hk hid hroom =>
    simp only [step, hk, Task.run, hid, if_pos hroom]
    rfl
  | setString hk => simp only [step, hk, Task.run]
  | retry hk hid => simp only [step, hk, Task.run, hid]
  | drop => rfl
  | remove => rfl

/-- **What a step does.** -/
theorem step_iff : step env tryCreate s e = some t ↔ Steps env tryCreate s e t :=
  ⟨step_cases, step_of_steps⟩

/-! ## Links and keys -/

theorem getUrlMappingKey_eq_ret {id : ShortId} {key : String} :
    getUrlMappingKey id = .ret key ↔
      ∃ shortId, id.toString = .ret shortId ∧ key = "Url-Mapping:" ++ shortId := by
  rw [getUrlMappingKey, Exec.bind_eq_ret_iff]
  simp only [Exec.pure_eq, Exec.ret.injEq, eq_comm]

/-- Two links that can be asked for never share an entry. -/
theorem getUrlMappingKey_inj {id id' : ShortId} {key : String} (hid : Parsed id) (hid' : Parsed id')
    (h : getUrlMappingKey id = .ret key) (h' : getUrlMappingKey id' = .ret key) : id = id' := by
  obtain ⟨shortId, hprint, rfl⟩ := getUrlMappingKey_eq_ret.mp h
  obtain ⟨shortId', hprint', heq⟩ := getUrlMappingKey_eq_ret.mp h'
  obtain rfl : shortId = shortId' := by simpa [← String.toList_inj] using heq
  exact hid.toString_inj hid' hprint hprint'

theorem parseId_of_index {isOnline : ℤ → Bool} {text : String} {id : ShortId}
    (h : index isOnline text = .ret (some id)) : parseId text = .ret id := by
  by_cases hrule : shortIdRule text
  · rw [index, if_neg (not_not.mpr hrule), Exec.bind_eq_ret_iff] at h
    obtain ⟨id', hparse, h⟩ := h
    by_cases honline : isOnline id'.range
    · rw [if_pos honline] at h
      obtain rfl := Option.some.inj (Exec.ret.inj h)
      exact hparse
    · rw [if_neg honline] at h
      cases h
  · rw [index, if_pos hrule] at h
    cases h

/-- The link a work item is about. -/
def Task.IsFor (id : ShortId) : Task → Prop
  | .notifyRedirect shortId => parseId shortId = .ret id
  | .incrementVisit shardId shortId => parseId shortId = .ret id ∧ shardId = id.range
  | .setString key _ _ => getUrlMappingKey id = .ret key ∧ Parsed id

theorem Task.IsFor.parsed {id : ShortId} {task : Task} (h : task.IsFor id) : Parsed id := by
  cases task with
  | notifyRedirect shortId => exact ⟨shortId, h⟩
  | incrementVisit shardId shortId => exact ⟨shortId, h.1⟩
  | setString key data readAt => exact h.2

/-- A work item is about one link only. -/
theorem Task.IsFor.eq {id id' : ShortId} {task : Task} (h : task.IsFor id) (h' : task.IsFor id') :
    id = id' := by
  cases task with
  | notifyRedirect shortId => exact Exec.ret.inj (h.symm.trans h')
  | incrementVisit shardId shortId => exact Exec.ret.inj (h.1.symm.trans h'.1)
  | setString key data readAt => exact getUrlMappingKey_inj h.2 h'.2 h.1 h'.1

/-- What a call of `Redirect` has read, and what it enqueues. -/
theorem redirect_eq_some {shortId destinationUrl : String} {id : ShortId} {tasks : List Task}
    (hid : parseId shortId = .ret id)
    (h : redirect s id.range shortId = some (destinationUrl, tasks)) :
    ∃ url ∈ (s.links.shards id.range).database.urls, url.id = id.index ∧
      url.destinationUrl = destinationUrl ∧ ∃ key, getUrlMappingKey id = .ret key ∧
      tasks = [.incrementVisit id.range shortId, .setString key destinationUrl s.now] := by
  simp only [redirect, hid] at h
  split at h
  · rename_i url hurl
    split at h
    · rename_i tasks' htasks
      obtain ⟨rfl, rfl⟩ := Prod.mk.inj (Option.some.inj h)
      have hmem : url ∈ (s.links.shards id.range).database.urls.filter fun url => url.id = id.index := by
        unfold Database.getByUrlId singleOrDefault at hurl
        split at hurl
        · cases hurl
        · rename_i url' heq
          obtain rfl := Option.some.inj (Except.ok.inj hurl)
          rw [heq]
          exact List.mem_singleton_self _
        · cases hurl
      rw [List.mem_filter, decide_eq_true_eq] at hmem
      obtain ⟨hmem, hindex⟩ := hmem
      rw [redirectTasks, Exec.bind_eq_ret_iff] at htasks
      obtain ⟨key, hkey, htasks⟩ := htasks
      obtain rfl := Exec.ret.inj htasks
      have hshort : (⟨id.range, url.id⟩ : ShortId) = id := ShortId.ext rfl hindex
      rw [hshort] at hkey
      exact ⟨url, hmem, hindex, rfl, key, hkey, rfl⟩
    · cases h
  · cases h

/-! ## Invariant -/

/-- Who works on which link. -/
structure Inv (s : State) : Prop where
  visitors : ∀ visitor ∈ s.visitors, parseId visitor.request.shortId = .ret visitor.id
  timestamps : ∀ visitor ∈ s.visitors, visitor.request.timestamp ≤ s.now
  calls : ∀ call ∈ s.calls, ∃ visitor, s.visitors[call.visitor]? = some visitor ∧
    visitor.request = call.request ∧ ∀ task ∈ call.tasks, task.IsFor visitor.id
  tasks : ∀ task ∈ s.tasks, ∃ id, task.IsFor id

theorem inv_init : Inv .init :=
  ⟨by simp [State.init], by simp [State.init], by simp [State.init], by simp [State.init]⟩

theorem Inv.visitor (hs : Inv s) {v : ℕ} {visitor : Visitor} (h : s.visitors[v]? = some visitor) :
    parseId visitor.request.shortId = .ret visitor.id :=
  hs.visitors visitor (List.mem_of_getElem? h)

theorem Inv.call (hs : Inv s) {i : ℕ} {call : Call} (h : s.calls[i]? = some call) :
    ∃ visitor, s.visitors[call.visitor]? = some visitor ∧ visitor.request = call.request ∧
      ∀ task ∈ call.tasks, task.IsFor visitor.id :=
  hs.calls call (List.mem_of_getElem? h)

theorem Inv.task (hs : Inv s) {k : ℕ} {task : Task} (h : s.tasks[k]? = some task) :
    ∃ id, task.IsFor id :=
  hs.tasks task (List.mem_of_getElem? h)

/-- A visitor keeps the short id it came with. -/
theorem getElem?_setStage {v w : ℕ} {visitor visitor' : Visitor} {stage : Stage}
    (hv : s.visitors[v]? = some visitor) (hw : s.visitors[w]? = some visitor') :
    ∃ stage', (s.setStage v visitor stage).visitors[w]? = some { visitor' with stage := stage' } := by
  by_cases h : v = w
  · subst h
    obtain rfl : visitor = visitor' := Option.some.inj (hv.symm.trans hw)
    have hlt := (List.getElem?_eq_some_iff.mp hv).1
    exact ⟨stage, List.getElem?_set_self hlt⟩
  · refine ⟨visitor'.stage, ?_⟩
    rw [State.setStage, List.getElem?_set_ne h]
    exact hw

theorem Inv.setStage (hs : Inv s) {v : ℕ} {visitor : Visitor} (hv : s.visitors[v]? = some visitor)
    (stage : Stage) : Inv (s.setStage v visitor stage) where
  visitors := by
    intro visitor' hmem
    rcases List.mem_or_eq_of_mem_set hmem with hmem | rfl
    · exact hs.visitors visitor' hmem
    · show parseId visitor.request.shortId = .ret visitor.id
      exact hs.visitor hv
  timestamps := by
    intro visitor' hmem
    rcases List.mem_or_eq_of_mem_set hmem with hmem | rfl
    · exact hs.timestamps visitor' hmem
    · exact hs.timestamps visitor (List.mem_of_getElem? hv)
  calls := by
    intro call hcall
    obtain ⟨visitor', hw, hrequest, htasks⟩ := hs.calls call hcall
    obtain ⟨stage', hw'⟩ := getElem?_setStage hv hw
    exact ⟨_, hw', hrequest, htasks⟩
  tasks := hs.tasks

/-- A step that leaves visitors and calls alone, and drops work items only. -/
theorem Inv.of_eq (hs : Inv s) (hvisitors : t.visitors = s.visitors) (hnow : s.now ≤ t.now)
    (hcalls : ∀ call ∈ t.calls, call ∈ s.calls) (htasks : ∀ task ∈ t.tasks, task ∈ s.tasks) :
    Inv t where
  visitors := by
    rw [hvisitors]
    exact hs.visitors
  timestamps := by
    rw [hvisitors]
    exact fun visitor hmem => (hs.timestamps visitor hmem).trans hnow
  calls := by
    rw [hvisitors]
    exact fun call hcall => hs.calls call (hcalls call hcall)
  tasks := fun task htask => hs.tasks task (htasks task htask)

theorem Inv.addTask (hs : Inv s) {task : Task} {id : ShortId} (h : task.IsFor id) :
    Inv { s with tasks := s.tasks ++ [task] } := by
  refine ⟨hs.visitors, hs.timestamps, hs.calls, ?_⟩
  intro task' hmem
  rcases List.mem_append.mp hmem with hmem | hmem
  · exact hs.tasks task' hmem
  · obtain rfl := List.mem_singleton.mp hmem
    exact ⟨id, h⟩

theorem Inv.dropTask (hs : Inv s) (k : ℕ) : Inv { s with tasks := s.tasks.eraseIdx k } :=
  hs.of_eq rfl le_rfl (fun _ hcall => hcall) fun _ htask => List.mem_of_mem_eraseIdx htask

theorem Inv.dropCall (hs : Inv s) (i : ℕ) : Inv { s with calls := s.calls.eraseIdx i } :=
  hs.of_eq rfl le_rfl (fun _ hcall => List.mem_of_mem_eraseIdx hcall) fun _ htask => htask

theorem Inv.visit (hs : Inv s) {text shortId : String} {isOnline : ℤ → Bool} {id : ShortId}
    (hindex : index isOnline text = .ret (some id)) (hprint : id.toString = .ret shortId) :
    Inv { s with visitors := s.visitors ++ [⟨id, ⟨shortId, s.now⟩, .looking⟩] } where
  visitors := by
    intro visitor hmem
    rcases List.mem_append.mp hmem with hmem | hmem
    · exact hs.visitors visitor hmem
    · obtain rfl := List.mem_singleton.mp hmem
      have hparse := parseId_of_index hindex
      obtain rfl : shortId = text := Exec.ret.inj (hprint.symm.trans (toString_of_parseId hparse))
      exact hparse
  timestamps := by
    intro visitor hmem
    rcases List.mem_append.mp hmem with hmem | hmem
    · exact hs.timestamps visitor hmem
    · obtain rfl := List.mem_singleton.mp hmem
      exact le_rfl
  calls := by
    intro call hcall
    obtain ⟨visitor, hv, hcall⟩ := hs.calls call hcall
    have hlt := (List.getElem?_eq_some_iff.mp hv).1
    refine ⟨visitor, ?_, hcall⟩
    rw [List.getElem?_append_left hlt]
    exact hv
  tasks := hs.tasks

theorem Inv.redirect (hs : Inv s) {v : ℕ} {visitor : Visitor} {destinationUrl : String}
    {tasks : List Task} (hv : s.visitors[v]? = some visitor)
    (hredirect : redirect s visitor.id.range visitor.request.shortId = some (destinationUrl, tasks)) :
    Inv { s with calls := s.calls ++ [⟨v, visitor.request, destinationUrl, tasks⟩] } := by
  refine ⟨hs.visitors, hs.timestamps, ?_, hs.tasks⟩
  intro call hmem
  rcases List.mem_append.mp hmem with hmem | hmem
  · exact hs.calls call hmem
  · obtain rfl := List.mem_singleton.mp hmem
    have hparse := hs.visitor hv
    obtain ⟨url, -, -, -, key, hkey, rfl⟩ := redirect_eq_some hparse hredirect
    refine ⟨visitor, hv, rfl, ?_⟩
    intro task hmem
    rcases List.mem_pair.mp hmem with rfl | rfl
    · exact ⟨hparse, rfl⟩
    · exact ⟨hkey, _, hparse⟩

theorem Inv.enqueue (hs : Inv s) {i : ℕ} {call : Call} {task : Task} {tasks : List Task}
    (hi : s.calls[i]? = some call) (htasks : call.tasks = task :: tasks) :
    Inv { s with
      calls := s.calls.set i { call with tasks := tasks }
      tasks := s.tasks ++ [task] } := by
  obtain ⟨visitor, hv, hrequest, hfor⟩ := hs.call hi
  rw [htasks] at hfor
  have hcalls : Inv { s with calls := s.calls.set i { call with tasks := tasks } } := by
    refine ⟨hs.visitors, hs.timestamps, ?_, hs.tasks⟩
    intro call' hmem
    rcases List.mem_or_eq_of_mem_set hmem with hmem | rfl
    · exact hs.calls call' hmem
    · exact ⟨visitor, hv, hrequest, fun task hmem => hfor task (List.mem_cons_of_mem _ hmem)⟩
  exact hcalls.addTask (hfor task List.mem_cons_self)

theorem Inv.step (hs : Inv s) (h : step env tryCreate s e = some t) : Inv t := by
  cases step_cases h with
  | links => exact hs.of_eq rfl le_rfl (fun _ hcall => hcall) fun _ htask => htask
  | deleteUser => exact hs.of_eq rfl le_rfl (fun _ hcall => hcall) fun _ htask => htask
  | tick => exact hs.of_eq rfl (Nat.le_succ _) (fun _ hcall => hcall) fun _ htask => htask
  | remove => exact hs.of_eq rfl le_rfl (fun _ hcall => hcall) fun _ htask => htask
  | home => exact hs
  | visit hindex hprint => exact hs.visit hindex hprint
  | getString hv => exact hs.setStage hv _
  | fail hv => exact hs.setStage hv _
  | @notify v visitor cachedUrl hv => exact (hs.setStage hv (.answered cachedUrl)).addTask (hs.visitor hv)
  | redirect hv _ hredirect => exact hs.redirect hv hredirect
  | enqueue hi htasks => exact hs.enqueue hi htasks
  | @reply i call _ _ _ hv => exact (hs.setStage hv (.answered call.destinationUrl)).dropCall i
  | @replyAgain i => exact hs.dropCall i
  | lose i => exact hs.dropCall i
  | @notifyRedirect k shortId id hk hid => exact (hs.dropTask k).addTask ⟨hid, rfl⟩
  | retry hk hid => exact hs.addTask ⟨hid, rfl⟩
  | @incrementVisit k =>
    exact hs.of_eq rfl le_rfl (fun _ hcall => hcall) fun _ htask => List.mem_of_mem_eraseIdx htask
  | @setString k =>
    exact hs.of_eq rfl le_rfl (fun _ hcall => hcall) fun _ htask => List.mem_of_mem_eraseIdx htask
  | drop k => exact hs.dropTask k

end Shortener.Redirects
