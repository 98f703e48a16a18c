import Shortener.Accounts.Users
import Shortener.Common.Linearization
import Shortener.Redirects.System
import Shortener.Rpc.RpcExceptionUtils

/-!
# The calls of a shard

The calls of `UserService` and `UrlService` that change users and links, and those of `Redirect`
(`Shortener.GrpcBackend/Services/UserService.cs`, `Shortener.GrpcBackend/Services/UrlService.cs`,
lines 39–102 and 237–276). The checks of a call, each of its statements on the tables and its
answer are steps of their own; between them other calls take theirs. `IsBanned` and the type of
the shard may say anything. A call that ends with an exception of the database or of `IsBanned`
that is not modelled, or with its process, is lost. The work items that calls enqueue are left
out, but for the counting of visits.

* `step_cases`: the steps, case by case.
-/

namespace Shortener.Backend

open Shortener.Common Shortener.DotNet Shortener.Codec Shortener.Links Shortener.Shard
  Shortener.Rpc

/-! ## State -/

/-- The requests to a shard. -/
inductive Request
  /-- `Create`, `GenerateToken`, `Update` and `Delete` of `UserService` -/
  | user (request : Accounts.Request)
  | create (userId : ℤ) (destinationUrl : String)
  | redirect (shortId : String)
  | update (userId : ℤ) (shortId destinationUrl : String)
  | delete (userId : ℤ) (shortId : String)
  deriving DecidableEq

/-- What a shard replies. -/
inductive Reply
  | user (reply : Accounts.Reply)
  /-- the `UrlMapping` of `CreateUrlReply` and `RedirectReply` -/
  | url (shortId destinationUrl : String)
  | success (success : Bool)
  | postgres (error : Accounts.PostgresError)
  /-- an exception of `SingleOrDefaultAsync` -/
  | exception (message : String)
  deriving DecidableEq

/-- How far a call has come. -/
inductive Stage
  | received
  /-- It has passed its checks, `IsBanned` for `uri` among them. -/
  | checked (uri : Uri)
  /-- `GetOrAdd` has returned the domain. -/
  | domain (domainId : ℤ)
  | executed (answer : Exec Reply)
  /-- It has been answered, or is lost. -/
  | ended

/-- A call in progress. -/
structure Call where
  request : Request
  stage : Stage

/-- A call has the number of calls before it as its name. -/
structure Shard where
  database : Accounts.Database
  calls : List Call

/-- Empty tables, and no call. -/
def Shard.init : Shard := ⟨.init, []⟩

/-- Call `n` is in another stage. -/
def Shard.setStage (s : Shard) (n : ℕ) (call : Call) (stage : Stage) : Shard :=
  { s with calls := s.calls.set n { call with stage := stage } }

/-! ## Calls -/

/-- The answer is an `RpcException`. -/
def throw (created : Created) : Exec Reply := .throw (.rpc created.status)

/-- Lines 46–55 of `Create`, and the same of `Update`. -/
def checkDestination (tryCreate : String → Option Uri) (banned : Bool) (destinationUrl : String) :
    Stage :=
  match isValidHttpUrl tryCreate destinationUrl with
  | some uri =>
    if banned then .executed (throw (.invalidArgument "DestinationUrl" none)) else .checked uri
  | none => .executed (throw (.invalidArgument "DestinationUrl" none))

/-- `Create` and `Update` as far as `GetOrAdd`. -/
def check (tryCreate : String → Option Uri) (type : ShardType) (banned : Bool) :
    Request → Option Stage
  | .create _ destinationUrl =>
    some (if type = .readOnly then .executed (throw (.resourceExhausted "ShortId" none))
      else checkDestination tryCreate banned destinationUrl)
  | .update _ shortId destinationUrl =>
    some (match parseId shortId with
      | .ret _ => checkDestination tryCreate banned destinationUrl
      | .throw e => .executed (.throw e)
      | .diverge => .executed .diverge)
  | _ => none

/-- `UrlRepository.Add`: the id of the row. -/
def add (db : Accounts.Database) (userId : ℤ) (destinationUrl : String) (domainId : ℤ) :
    Accounts.Database × Except Accounts.PostgresError ℤ :=
  if db.links.urlSequence = Accounts.maxInteger then (db, .error .sequenceGeneratorLimitExceeded)
  else
    match db.urlStatement (.add userId destinationUrl domainId) with
    | (db', .ok ()) => (db', .ok (db.links.urlSequence + 1))
    | (db', .error error) => (db', .error error)

/-- Whether `UPDATE` or `DELETE` affects a row. -/
def affects (db : Accounts.Database) (id userId : ℤ) : Bool :=
  db.links.urls.any fun url => url.id = id ∧ url.userId = userId

/-- The reply of `Create`, from line 75 on. -/
def created (shardId id : ℤ) (destinationUrl : String) : Exec Reply := do
  let shortId ← (⟨shardId, id⟩ : ShortId).toString
  return .url shortId destinationUrl

/-- `Redirect`. `UpdateUrlMappingCacheInBackground` prints the id of the row. -/
def redirect (shardId : ℤ) (db : Accounts.Database) (shortId : String) : Exec Reply := do
  let id ← parseId shortId
  match db.links.getByUrlId id.index with
  | .error message => return .exception message
  | .ok none => throw (.notFound "ShortId" none)
  | .ok (some url) => do
    let _ ← Redirects.getUrlMappingKey ⟨shardId, url.id⟩
    return .url shortId url.destinationUrl

/-- The last statement of a call. -/
def execute (hasher : Accounts.PasswordHasher) (shardId : ℤ) (db : Accounts.Database)
    (call : Call) : Option (Accounts.Database × Exec Reply) :=
  match call.request, call.stage with
  -- statements of `UrlService` are no calls of `UserService`
  | .user (.url _), _ => none
  | .user request, .received =>
    let (db, reply) := Accounts.step hasher shardId db request
    some (db, .ret (.user reply))
  | .create userId destinationUrl, .domain domainId =>
    match add db userId destinationUrl domainId with
    | (db, .ok id) => some (db, created shardId id destinationUrl)
    | (db, .error error) => some (db, .ret (.postgres error))
  | .redirect shortId, .received => some (db, redirect shardId db shortId)
  | .update userId shortId destinationUrl, .domain domainId =>
    match parseId shortId with
    | .ret id =>
      some ((db.urlStatement (.update id.index userId domainId destinationUrl)).1,
        .ret (.success (affects db id.index userId)))
    | _ => none
  | .delete userId shortId, .received =>
    match parseId shortId with
    | .ret id =>
      some ((db.urlStatement (.delete id.index userId)).1,
        .ret (.success (affects db id.index userId)))
    | .throw e => some (db, .throw e)
    | .diverge => some (db, .diverge)
  | _, _ => none

/-! ## Steps -/

/-- What can happen next on a shard. -/
inductive Event
  | receive (request : Request)
  /-- Call `n` takes its checks on a shard of this type; `IsBanned` returns `banned`. -/
  | check (n : ℕ) (type : ShardType) (banned : Bool)
  | getOrAdd (n : ℕ)
  /-- Call `n` runs its last statement. -/
  | execute (n : ℕ)
  | answer (n : ℕ)
  | lose (n : ℕ)
  /-- A work item counts a visit. -/
  | incrementVisit (id : ℤ)

section

variable (env : Globalization) (tryCreate : String → Option Uri) (hasher : Accounts.PasswordHasher)
  (shardId : ℤ)

/-- A step of a shard. -/
def step (s : Shard) : Event → Option Shard
  | .receive request => some { s with calls := s.calls ++ [⟨request, .received⟩] }
  | .check n type banned =>
    match s.calls[n]? with
    | some ⟨request, .received⟩ =>
      (check tryCreate type banned request).map (s.setStage n ⟨request, .received⟩)
    | _ => none
  | .getOrAdd n =>
    match s.calls[n]? with
    | some ⟨request, .checked uri⟩ =>
      let (links, domain) := s.database.links.getOrAdd env uri.host
      some { s.setStage n ⟨request, .checked uri⟩ (.domain domain.id) with
        database := { s.database with links := links } }
    | _ => none
  | .execute n =>
    match s.calls[n]? with
    | some call =>
      (execute hasher shardId s.database call).map fun (db, answer) =>
        { s.setStage n call (.executed answer) with database := db }
    | none => none
  | .answer n =>
    match s.calls[n]? with
    | some ⟨request, .executed answer⟩ =>
      if answer = .diverge then none else some (s.setStage n ⟨request, .executed answer⟩ .ended)
    | _ => none
  | .lose n => (s.calls[n]?).map fun call => s.setStage n call .ended
  | .incrementVisit id =>
    some { s with database := (s.database.urlStatement (.incrementVisit id)).1 }

/-- What is seen of a step. -/
def acts (s : Shard) : Event → List (Act ℕ Request (Exec Reply))
  | .receive request => [.call s.calls.length request]
  | .answer n =>
    match s.calls[n]? with
    | some ⟨_, .executed answer⟩ => [.answer n answer]
    | _ => []
  | _ => []

/-- The calls that take effect, or are refused. -/
def commits (s : Shard) : Event → List (ℕ × Request × Exec Reply)
  | .check n type banned =>
    match s.calls[n]? with
    | some call =>
      match check tryCreate type banned call.request with
      | some (.executed answer) => [(n, call.request, answer)]
      | _ => []
    | none => []
  | .execute n =>
    match s.calls[n]? with
    | some call =>
      match execute hasher shardId s.database call with
      | some (_, answer) => [(n, call.request, answer)]
      | none => []
    | none => []
  | _ => []

end

/-- What can be seen of a call. -/
def Call.status (call : Call) : Status Request (Exec Reply) :=
  match call.stage with
  | .executed answer => .done call.request answer
  | .ended => .ended
  | _ => .waiting call.request

/-- What can be seen of call `n`. -/
def Shard.status (s : Shard) (n : ℕ) : Status Request (Exec Reply) :=
  (s.calls[n]?).elim .unused Call.status

/-! ## What a step does -/

section

variable {env : Globalization} {tryCreate : String → Option Uri} {hasher : Accounts.PasswordHasher}
  {shardId : ℤ} {s t : Shard} {e : Event}

/-- The steps, case by case, with what is seen of them and which calls take effect. -/
inductive Steps (env : Globalization) (tryCreate : String → Option Uri)
    (hasher : Accounts.PasswordHasher) (shardId : ℤ) (s : Shard) :
    Event → List (Act ℕ Request (Exec Reply)) → List (ℕ × Request × Exec Reply) → Shard → Prop
  | receive (request : Request) :
      Steps env tryCreate hasher shardId s (.receive request) [.call s.calls.length request] []
        { s with calls := s.calls ++ [⟨request, .received⟩] }
  | passed {n : ℕ} {type : ShardType} {banned : Bool} {request : Request} {uri : Uri} :
      s.calls[n]? = some ⟨request, .received⟩ →
      check tryCreate type banned request = some (.checked uri) →
      Steps env tryCreate hasher shardId s (.check n type banned) [] []
        (s.setStage n ⟨request, .received⟩ (.checked uri))
  | refused {n : ℕ} {type : ShardType} {banned : Bool} {request : Request} {answer : Exec Reply} :
      s.calls[n]? = some ⟨request, .received⟩ →
      check tryCreate type banned request = some (.executed answer) →
      Steps env tryCreate hasher shardId s (.check n type banned) [] [(n, request, answer)]
        (s.setStage n ⟨request, .received⟩ (.executed answer))
  | getOrAdd {n : ℕ} {request : Request} {uri : Uri} :
      s.calls[n]? = some ⟨request, .checked uri⟩ →
      Steps env tryCreate hasher shardId s (.getOrAdd n) [] []
        { s.setStage n ⟨request, .checked uri⟩
            (.domain (s.database.links.getOrAdd env uri.host).2.id) with
          database :=
            { s.database with links := (s.database.links.getOrAdd env uri.host).1 } }
  | execute {n : ℕ} {call : Call} {db : Accounts.Database} {answer : Exec Reply} :
      s.calls[n]? = some call → execute hasher shardId s.database call = some (db, answer) →
      Steps env tryCreate hasher shardId s (.execute n) [] [(n, call.request, answer)]
        { s.setStage n call (.executed answer) with database := db }
  | answer {n : ℕ} {request : Request} {answer : Exec Reply} :
      s.calls[n]? = some ⟨request, .executed answer⟩ →
      Steps env tryCreate hasher shardId s (.answer n) [.answer n answer] []
        (s.setStage n ⟨request, .executed answer⟩ .ended)
  | lose {n : ℕ} {call : Call} : s.calls[n]? = some call →
      Steps env tryCreate hasher shardId s (.lose n) [] [] (s.setStage n call .ended)
  | incrementVisit (id : ℤ) :
      Steps env tryCreate hasher shardId s (.incrementVisit id) [] []
        { s with database := (s.database.urlStatement (.incrementVisit id)).1 }

theorem checkDestination_cases (tryCreate : String → Option Uri) (banned : Bool)
    (destinationUrl : String) :
    checkDestination tryCreate banned destinationUrl =
        .executed (throw (.invalidArgument "DestinationUrl" none)) ∨
      ∃ uri, checkDestination tryCreate banned destinationUrl = .checked uri := by
  unfold checkDestination
  split
  · split_ifs
    · exact .inl rfl
    · exact .inr ⟨_, rfl⟩
  · exact .inl rfl

/-- A call is refused, or goes on with a URI. -/
theorem check_cases {type : ShardType} {banned : Bool} {request : Request} {stage : Stage}
    (h : check tryCreate type banned request = some stage) :
    (∃ answer, stage = .executed answer) ∨ ∃ uri, stage = .checked uri := by
  have hdestination : ∀ destinationUrl,
      (∃ answer, checkDestination tryCreate banned destinationUrl = .executed answer) ∨
        ∃ uri, checkDestination tryCreate banned destinationUrl = .checked uri :=
    fun destinationUrl => (checkDestination_cases tryCreate banned destinationUrl).imp_left
      fun heq => ⟨_, heq⟩
  cases request with
  | create userId destinationUrl =>
    obtain rfl := Option.some.inj h
    split_ifs
    · exact .inl ⟨_, rfl⟩
    · exact hdestination destinationUrl
  | update userId shortId destinationUrl =>
    obtain rfl := Option.some.inj h
    cases parseId shortId with
    | ret id => exact hdestination destinationUrl
    | throw e => exact .inl ⟨_, rfl⟩
    | diverge => exact .inl ⟨_, rfl⟩
  | _ => cases h

/-- **What a step does.** -/
theorem step_cases (h : step env tryCreate hasher shardId s e = some t) :
    Steps env tryCreate hasher shardId s e (acts s e) (commits tryCreate hasher shardId s e) t := by
  cases e with
  | receive request =>
    obtain rfl := Option.some.inj h
    exact .receive request
  | check n type banned =>
    simp only [step] at h
    split at h
    · rename_i request hn
      obtain ⟨stage, hstage, rfl⟩ := Option.map_eq_some_iff.mp h
      rcases check_cases hstage with ⟨answer, rfl⟩ | ⟨uri, rfl⟩
      · have hcommits : commits tryCreate hasher shardId s (.check n type banned) =
            [(n, request, answer)] := by
          simp only [commits, hn, hstage]
        rw [hcommits]
        exact .refused hn hstage
      · have hcommits : commits tryCreate hasher shardId s (.check n type banned) = [] := by
          simp only [commits, hn, hstage]
        rw [hcommits]
        exact .passed hn hstage
    · cases h
  | getOrAdd n =>
    simp only [step] at h
    split at h
    · rename_i request uri hn
      obtain rfl := Option.some.inj h
      exact .getOrAdd hn
    · cases h
  | execute n =>
    simp only [step] at h
    split at h
    · rename_i call hn
      obtain ⟨⟨db, answer⟩, hexecute, rfl⟩ := Option.map_eq_some_iff.mp h
      have hcommits : commits tryCreate hasher shardId s (.execute n) =
          [(n, call.request, answer)] := by
        simp only [commits, hn, hexecute]
      rw [hcommits]
      exact .execute hn hexecute
    · cases h
  | answer n =>
    simp only [step] at h
    split at h
    · rename_i request answer hn
      split_ifs at h
      obtain rfl := Option.some.inj h
      have hacts : acts s (.answer n) = [.answer n answer] := by
        simp only [acts, hn]
      rw [hacts]
      exact .answer hn
    · cases h
  | lose n =>
    obtain ⟨call, hn, rfl⟩ := Option.map_eq_some_iff.mp h
    exact .lose hn
  | incrementVisit id =>
    obtain rfl := Option.some.inj h
    exact .incrementVisit id

/-! ## How far calls have come -/

theorem Shard.status_eq {n : ℕ} {call : Call} (h : s.calls[n]? = some call) :
    s.status n = call.status := by
  rw [Shard.status, h]
  rfl

theorem status_init (n : ℕ) : Shard.init.status n = .unused := rfl

theorem status_setStage {n : ℕ} {call : Call} (h : s.calls[n]? = some call) (stage : Stage) :
    (s.setStage n call stage).status =
      Function.update s.status n (Call.status { call with stage := stage }) := by
  funext m
  by_cases hm : m = n
  · subst hm
    have hlt := (List.getElem?_eq_some_iff.mp h).1
    rw [Function.update_self]
    exact Shard.status_eq (List.getElem?_set_self hlt)
  · rw [Function.update_of_ne hm, Shard.status, Shard.setStage, List.getElem?_set_ne (Ne.symm hm)]
    rfl

/-- A step before the last statement leaves a call waiting. -/
theorem status_setStage_waiting {n : ℕ} {call : Call} (h : s.calls[n]? = some call) (stage : Stage)
    (hstatus : Call.status { call with stage := stage } = call.status) :
    (s.setStage n call stage).status = s.status := by
  rw [status_setStage h, hstatus, ← Shard.status_eq h, Function.update_eq_self]

theorem status_receive (request : Request) :
    Shard.status { s with calls := s.calls ++ [⟨request, .received⟩] } =
      Function.update s.status s.calls.length (.waiting request) := by
  funext m
  show ((s.calls ++ [(⟨request, .received⟩ : Call)])[m]?).elim _ _ = _
  by_cases hm : m = s.calls.length
  · subst hm
    rw [Function.update_self, List.getElem?_concat_length]
    rfl
  · rw [Function.update_of_ne hm, Shard.status]
    by_cases hlt : m < s.calls.length
    · rw [List.getElem?_append_left hlt]
    · have hlength : (s.calls ++ [(⟨request, .received⟩ : Call)]).length ≤ m := by
        rw [List.length_append, List.length_singleton]
        omega
      rw [List.getElem?_eq_none hlength, List.getElem?_eq_none (not_lt.mp hlt)]

/-- A call that runs its last statement has not taken effect before. -/
theorem status_of_execute {db db' : Accounts.Database} {call : Call} {answer : Exec Reply}
    (h : execute hasher shardId db call = some (db', answer)) :
    call.status = .waiting call.request := by
  obtain ⟨request, stage⟩ := call
  cases stage with
  | received => rfl
  | checked uri => rfl
  | domain domainId => rfl
  | executed answer =>
    cases request with
    | user request => cases request <;> cases h
    | _ => cases h
  | ended =>
    cases request with
    | user request => cases request <;> cases h
    | _ => cases h

theorem status_ne_unused {n : ℕ} {call : Call} (h : s.calls[n]? = some call) :
    s.status n ≠ .unused := by
  rw [Shard.status_eq h]
  obtain ⟨request, stage⟩ := call
  cases stage <;> simp [Call.status]

theorem status_length : s.status s.calls.length = .unused := by
  simp [Shard.status]

end

end Shortener.Backend
