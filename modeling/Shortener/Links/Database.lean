import Shortener.Codec.HttpUrl
import Shortener.Common.Run

/-!
# The links of a shard

The tables `Domain` and `Url` of a shard, the statements of `DomainRepository` and
`UrlRepository` that `UrlService` runs on them, and the calls of `Create`, `Update` and
`Delete` (`Shortener.GrpcBackend/Services/UrlService.cs`), which run two statements or one.
Between the statements of a call those of other calls may run. A call that throws, is
refused or is lost with its process runs no further statement.

* `step_call`, `step_calls`: which calls are in progress after a step.
* `link_kept`: only `Update` and `Delete` for the owner of a row touch the row.
-/

namespace Shortener.Links

open Shortener.Common Shortener.DotNet Shortener.Codec

/-! ## Tables and statements -/

/-- A row of table `Domain`. -/
structure DomainRow where
  id : ℤ
  name : String
  deriving DecidableEq, Repr

/-- A row of table `Url`. -/
structure UrlRow where
  id : ℤ
  userId : ℤ
  domainId : ℤ
  destinationUrl : String
  totalViews : ℤ
  deriving DecidableEq, Repr

/-- The tables, each with the last value of the sequence behind its `Id`. -/
structure Database where
  domains : List DomainRow
  domainSequence : ℤ
  urls : List UrlRow
  urlSequence : ℤ
  deriving DecidableEq, Repr

/-- Empty tables. -/
def Database.init : Database := ⟨[], 0, [], 0⟩

/-- The outcome of `SingleOrDefaultAsync`. -/
def singleOrDefault {α : Type} : List α → Except String (Option α)
  | [] => .ok none
  | [a] => .ok (some a)
  | _ => .error "Sequence contains more than one element."

/-- `SingleOrDefaultAsync` does not throw where `f` is unique. -/
theorem singleOrDefault_cases {α β : Type} [DecidableEq β] {l : List α} {f : α → β}
    (hnodup : (l.map f).Nodup) (b : β) :
    (∃ a ∈ l, f a = b ∧ singleOrDefault (l.filter fun a => f a = b) = .ok (some a)) ∨
      (∀ a ∈ l, f a ≠ b) ∧ singleOrDefault (l.filter fun a => f a = b) = .ok none := by
  have hmem : ∀ a, a ∈ l.filter (fun a => f a = b) ↔ a ∈ l ∧ f a = b := by simp
  have hkeys : ((l.filter fun a => f a = b).map f).Nodup := hnodup.sublist (List.filter_sublist.map f)
  match hfound : l.filter fun a => f a = b with
  | [] =>
    refine .inr ⟨?_, rfl⟩
    intro a ha heq
    rw [hfound] at hmem
    exact List.not_mem_nil ((hmem a).mpr ⟨ha, heq⟩)
  | [a] =>
    rw [hfound] at hmem
    obtain ⟨ha, heq⟩ := (hmem a).mp (List.mem_singleton_self a)
    exact .inl ⟨a, ha, heq, rfl⟩
  | first :: second :: rest =>
    rw [hfound] at hmem hkeys
    have hfirst := ((hmem first).mp (by simp)).2
    have hsecond := ((hmem second).mp (by simp)).2
    simp [hfirst, hsecond] at hkeys

/-- `DomainRepository.Get`. -/
def Database.get (env : Globalization) (db : Database) (name : String) :
    Except String (Option DomainRow) :=
  singleOrDefault (db.domains.filter fun domain => domain.name = env.toLowerInvariant name)

/-- `DomainRepository.GetOrAdd`. -/
def Database.getOrAdd (env : Globalization) (db : Database) (name : String) : Database × DomainRow :=
  let name := env.toLowerInvariant name
  match db.domains.find? fun domain => domain.name = name with
  | some domain => (db, domain)
  | none =>
    let domain : DomainRow := ⟨db.domainSequence + 1, name⟩
    ({ db with domains := db.domains ++ [domain], domainSequence := domain.id }, domain)

/-- `UrlRepository.GetCount`. -/
def Database.getCount (db : Database) (domainId : ℤ) : ℕ :=
  db.urls.countP fun url => url.domainId = domainId

/-- `UrlRepository.GetByUrlId`. -/
def Database.getByUrlId (db : Database) (id : ℤ) : Except String (Option UrlRow) :=
  singleOrDefault (db.urls.filter fun url => url.id = id)

/-- `UrlRepository.Add`. -/
def Database.add (db : Database) (userId : ℤ) (destinationUrl : String) (domainId : ℤ) : Database :=
  { db with
    urls := db.urls ++ [⟨db.urlSequence + 1, userId, domainId, destinationUrl, 0⟩]
    urlSequence := db.urlSequence + 1 }

/-- `UrlRepository.Update`. -/
def Database.update (db : Database) (id userId domainId : ℤ) (destinationUrl : String) : Database :=
  { db with
    urls := db.urls.map fun url =>
      if url.id = id ∧ url.userId = userId then
        { url with destinationUrl := destinationUrl, domainId := domainId }
      else url }

/-- `UrlRepository.IncrementVisit`. -/
def Database.incrementVisit (db : Database) (id : ℤ) : Database :=
  { db with
    urls := db.urls.map fun url =>
      if url.id = id then { url with totalViews := url.totalViews + 1 } else url }

/-- `UrlRepository.Delete`. -/
def Database.delete (db : Database) (id userId : ℤ) : Database :=
  { db with urls := db.urls.filter fun url => ¬ (url.id = id ∧ url.userId = userId) }

/-! ## Calls -/

/-- `CreateUrlRequest`, `UpdateUrlRequest` and `DeleteUrlRequest`. -/
inductive Request
  | create (userId : ℤ) (destinationUrl : String)
  | update (userId : ℤ) (shortId destinationUrl : String)
  | delete (userId : ℤ) (shortId : String)
  deriving DecidableEq, Repr

/-- The user for whom the request is. -/
def Request.userId : Request → ℤ
  | .create userId _ => userId
  | .update userId _ _ => userId
  | .delete userId _ => userId

/-- A call in progress. -/
structure Call (ω : Type) where
  /-- where the request comes from -/
  origin : ω
  request : Request
  /-- the id of the domain, once `GetOrAdd` has returned it -/
  domainId : Option ℤ
  deriving DecidableEq, Repr

/-- A shard, and the calls in progress. -/
structure Shard (ω : Type) where
  database : Database
  calls : List (Call ω)
  deriving DecidableEq, Repr

/-- What can happen next on a shard. -/
inductive Event (ω : Type)
  /-- A request arrives. -/
  | receive (origin : ω) (request : Request)
  /-- `GetOrAdd` of call `i`, which has passed its checks. -/
  | getOrAdd (i : ℕ)
  /-- `Add`, `Update` or `Delete` of call `i`. -/
  | execute (i : ℕ)
  /-- Call `i` ends before its next statement. -/
  | fail (i : ℕ)
  /-- A redirect is counted. -/
  | incrementVisit (id : ℤ)
  deriving DecidableEq, Repr

/-- The URI that `Create` and `Update` pass to `IsBanned` and `GetOrAdd`; `Update` parses its
    short id first. -/
def Request.uri (tryCreate : String → Option Uri) : Request → Option Uri
  | .create _ destinationUrl => isValidHttpUrl tryCreate destinationUrl
  | .update _ shortId destinationUrl =>
    if (parseId shortId).Returns then isValidHttpUrl tryCreate destinationUrl else none
  | .delete _ _ => none

/-- The last statement of a call. -/
def Call.execute {ω : Type} (call : Call ω) (db : Database) : Option Database :=
  match call.request, call.domainId with
  | .create userId destinationUrl, some domainId => some (db.add userId destinationUrl domainId)
  | .update userId shortId destinationUrl, some domainId =>
    match parseId shortId with
    | .ret id => some (db.update id.index userId domainId destinationUrl)
    | _ => none
  | .delete userId shortId, _ =>
    match parseId shortId with
    | .ret id => some (db.delete id.index userId)
    | _ => none
  | _, _ => none

/-- A step of a shard. -/
def step {ω : Type} (env : Globalization) (tryCreate : String → Option Uri) (s : Shard ω) :
    Event ω → Option (Shard ω)
  | .receive origin request => some { s with calls := s.calls ++ [⟨origin, request, none⟩] }
  | .getOrAdd i =>
    match s.calls[i]? with
    | some call =>
      match call.domainId, call.request.uri tryCreate with
      | none, some uri =>
        let (db, domain) := s.database.getOrAdd env uri.host
        some { database := db, calls := s.calls.set i { call with domainId := some domain.id } }
      | _, _ => none
    | none => none
  | .execute i =>
    match s.calls[i]? with
    | some call =>
      (call.execute s.database).map fun db => { database := db, calls := s.calls.eraseIdx i }
    | none => none
  | .fail i => some { s with calls := s.calls.eraseIdx i }
  | .incrementVisit id => some { s with database := s.database.incrementVisit id }

/-! ## What a step does -/

section

variable {ω : Type} {env : Globalization} {tryCreate : String → Option Uri} {s t : Shard ω}
  {e : Event ω}

@[simp] theorem Database.urls_getOrAdd (db : Database) (name : String) :
    (db.getOrAdd env name).1.urls = db.urls := by
  unfold Database.getOrAdd
  dsimp only
  split <;> rfl

/-- A call in progress was in progress before, has just got its domain, or has just
    arrived. -/
theorem step_call (h : step env tryCreate s e = some t) {call : Call ω} (hcall : call ∈ t.calls) :
    call ∈ s.calls ∨
      (∃ i call' uri, e = .getOrAdd i ∧ s.calls[i]? = some call' ∧
        call'.request.uri tryCreate = some uri ∧ t.database = (s.database.getOrAdd env uri.host).1 ∧
        call = { call' with domainId := some (s.database.getOrAdd env uri.host).2.id }) ∨
      e = .receive call.origin call.request ∧ call.domainId = none := by
  cases e with
  | receive origin request =>
    obtain rfl := Option.some.inj h
    rcases List.mem_append.mp hcall with hcall | hcall
    · exact .inl hcall
    · obtain rfl := List.mem_singleton.mp hcall
      exact .inr (.inr ⟨rfl, rfl⟩)
  | getOrAdd i =>
    simp only [step] at h
    split at h
    · rename_i call' hi
      split at h
      · rename_i uri _ huri
        obtain rfl := Option.some.inj h
        rcases List.mem_or_eq_of_mem_set hcall with hcall | rfl
        · exact .inl hcall
        · exact .inr (.inl ⟨i, call', uri, rfl, hi, huri, rfl, rfl⟩)
      · cases h
    · cases h
  | execute i =>
    simp only [step] at h
    split at h
    · obtain ⟨db, -, rfl⟩ := Option.map_eq_some_iff.mp h
      exact .inl (List.mem_of_mem_eraseIdx hcall)
    · cases h
  | fail i =>
    obtain rfl := Option.some.inj h
    exact .inl (List.mem_of_mem_eraseIdx hcall)
  | incrementVisit id =>
    obtain rfl := Option.some.inj h
    exact .inl hcall

/-- A call in progress has just arrived, or was in progress before, maybe without its
    domain. -/
theorem step_calls (h : step env tryCreate s e = some t) {call : Call ω} (hcall : call ∈ t.calls) :
    (∃ call' ∈ s.calls, call'.origin = call.origin ∧ call'.request = call.request) ∨
      e = .receive call.origin call.request := by
  rcases step_call h hcall with hcall | ⟨i, call', uri, -, hi, -, -, rfl⟩ | ⟨he, -⟩
  · exact .inl ⟨call, hcall, rfl, rfl⟩
  · exact .inl ⟨call', List.mem_of_getElem? hi, rfl, rfl⟩
  · exact .inr he

/-- The rows show the same link of the same user. -/
structure UrlRow.SameLink (row row' : UrlRow) : Prop where
  id : row'.id = row.id
  userId : row'.userId = row.userId
  domainId : row'.domainId = row.domainId
  destinationUrl : row'.destinationUrl = row.destinationUrl

theorem UrlRow.SameLink.refl (row : UrlRow) : row.SameLink row := ⟨rfl, rfl, rfl, rfl⟩

/-- The last statement of a call keeps the links of other users. -/
theorem Call.execute_kept {call : Call ω} {db db' : Database} (h : call.execute db = some db')
    {row : UrlRow} (hrow : row ∈ db.urls) (huser : call.request.userId ≠ row.userId) :
    row ∈ db'.urls := by
  unfold Call.execute at h
  split at h
  · obtain rfl := Option.some.inj h
    exact List.mem_append_left _ hrow
  · rename_i userId shortId destinationUrl domainId hrequest _
    split at h
    · rename_i id _
      obtain rfl := Option.some.inj h
      rw [hrequest] at huser
      have hnot : ¬ (row.id = id.index ∧ row.userId = userId) := fun hmatch => huser hmatch.2.symm
      exact List.mem_map.mpr ⟨row, hrow, if_neg hnot⟩
    · cases h
  · rename_i userId shortId hrequest
    split at h
    · rename_i id _
      obtain rfl := Option.some.inj h
      rw [hrequest] at huser
      have hnot : ¬ (row.id = id.index ∧ row.userId = userId) := fun hmatch => huser hmatch.2.symm
      exact List.mem_filter.mpr ⟨hrow, decide_eq_true hnot⟩
    · cases h
  · cases h

/-- A link that a step does not keep belongs to the user for whom the step is taken. -/
theorem link_kept (h : step env tryCreate s e = some t) {row : UrlRow}
    (hrow : row ∈ s.database.urls) :
    (∃ row' ∈ t.database.urls, row.SameLink row') ∨
      ∃ i call, e = .execute i ∧ s.calls[i]? = some call ∧ call.request.userId = row.userId := by
  cases e with
  | receive origin request =>
    obtain rfl := Option.some.inj h
    exact .inl ⟨row, hrow, .refl row⟩
  | getOrAdd i =>
    simp only [step] at h
    split at h
    · split at h
      · obtain rfl := Option.some.inj h
        exact .inl ⟨row, by rwa [Database.urls_getOrAdd], .refl row⟩
      · cases h
    · cases h
  | execute i =>
    simp only [step] at h
    split at h
    · rename_i call hi
      obtain ⟨db, hdb, rfl⟩ := Option.map_eq_some_iff.mp h
      by_cases huser : call.request.userId = row.userId
      · exact .inr ⟨i, call, rfl, hi, huser⟩
      · exact .inl ⟨row, Call.execute_kept hdb hrow huser, .refl row⟩
    · cases h
  | fail i =>
    obtain rfl := Option.some.inj h
    exact .inl ⟨row, hrow, .refl row⟩
  | incrementVisit id =>
    obtain rfl := Option.some.inj h
    left
    refine ⟨_, List.mem_map_of_mem hrow, ?_⟩
    split_ifs
    · exact ⟨rfl, rfl, rfl, rfl⟩
    · exact .refl row

end

end Shortener.Links
