import Shortener.DotNet.Integer
import Shortener.Links.Database

/-!
# Frontends

The REST frontend (`Shortener.RestFrontend/Controllers/UrlController.cs`), the GraphQL
frontend (`Shortener.GraphQLFrontend/GraphQL/Mutation.cs`) and the `UrlService` they share
(`Shortener.FrontendShared/Services/UrlService.cs`, lines 44–67 and 206–255): what they ask
which shard for. Reading requests are left out.

* `UserId.tryParse_toString`: the `sub` of a token gives back the user it was issued to.
* `handle_ok`: a frontend sends requests for the user of the token to the user's shard only.
-/

namespace Shortener.Links

open Shortener.Common Shortener.DotNet Shortener.Codec

/-! ## Users -/

/-- `sealed record UserId(long ShardId, int Id)`. -/
@[ext] structure UserId where
  shardId : ℤ
  id : ℤ
  deriving DecidableEq, Repr

/-- The fields are a `long` and an `int`. -/
def UserId.IsValid (userId : UserId) : Prop := IsInt64 userId.shardId ∧ IsInt32 userId.id

/-- `UserId.ToString`. -/
def UserId.toString (userId : UserId) : String :=
  ToString.toString userId.shardId ++ ":" ++ ToString.toString userId.id

/-- `UserId.TryParse`. -/
def UserId.tryParse (jwtSub : String) : Option UserId :=
  match jwtSub.toList.splitOn ':' with
  | [first, second] =>
    match tryParseInt64 first, tryParseInt32 second with
    | some shardId, some userId => some ⟨shardId, userId⟩
    | _, _ => none
  | _ => none

theorem UserId.tryParse_toString {userId : UserId} (h : userId.IsValid) :
    UserId.tryParse userId.toString = some userId := by
  have hnot : ∀ n : ℤ, ':' ∉ (ToString.toString n).toList := fun n hmem => (of_mem_toString hmem).2 rfl
  have hsplit : userId.toString.toList.splitOn ':' =
      [(ToString.toString userId.shardId).toList, (ToString.toString userId.id).toList] := by
    have hlist : userId.toString.toList =
        (ToString.toString userId.shardId).toList ++ ':' :: (ToString.toString userId.id).toList := by
      simp [UserId.toString]
    rw [hlist, List.splitOn_append_cons_self_of_not_mem (hnot _), List.splitOn_eq_singleton (hnot _)]
  rw [UserId.tryParse, hsplit]
  simp only [tryParseInt64_toString h.1, tryParseInt32_toString h.2]

/-! ## Frontends -/

/-- Why a frontend sends nothing to a backend. -/
inductive Refusal
  /-- the validators of the REST frontend -/
  | badRequest
  /-- the validators of the GraphQL frontend -/
  | invalidInput
  /-- `Forbid()` -/
  | forbid
  /-- `GraphQLException` -/
  | graphQL (message : String)
  /-- `ResourceExhaustedException` -/
  | resourceExhausted (subject message : String)
  /-- `RpcExceptionUtils.PermissionDenied` -/
  | permissionDenied (metadata : List (String × String)) (message : String)
  /-- the exception of `JwtHandler` -/
  | invalidToken (sub : String)
  | exception (e : Exn)
  | diverges
  deriving DecidableEq, Repr

/-- The outcome of a call inside a frontend. -/
def ofExec {α : Type} : Exec α → Except Refusal α
  | .ret a => .ok a
  | .throw e => .error (.exception e)
  | .diverge => .error .diverges

/-- What a client sends with its token. -/
inductive ClientRequest
  | restCreate (destinationUrl : String)
  | restUpdate (shortId destinationUrl : String)
  | restDelete (shortId : String)
  | createUrl (destinationUrl : String)
  | updateUrl (shortUrl destinationUrl : String)
  | deleteUrl (shortUrl : String)
  deriving DecidableEq, Repr

section

variable (env : Globalization) (tryCreate : String → Option Uri)

/-- The prefix that `Create` and `Update` add. -/
def withScheme (destinationUrl : String) : String :=
  if ¬ env.startsWith destinationUrl "http://" ∧ ¬ env.startsWith destinationUrl "https://" then
    "https://" ++ destinationUrl
  else destinationUrl

/-- `UrlService.Create`: the shard, and what it is asked for. -/
def create (canShardCreateNewUrl : ℤ → Bool) (userId : UserId) (destinationUrl : String) :
    Except Refusal (ℤ × Request) :=
  if ¬ canShardCreateNewUrl userId.shardId then
    .error (.resourceExhausted "ShortId" "Service unavailable")
  else .ok (userId.shardId, .create userId.id (withScheme env destinationUrl))

/-- The metadata of `PermissionDenied`. -/
def shardIds (id : ShortId) (userId : UserId) : List (String × String) :=
  [("Range", toString id.range), ("ShardId", toString userId.shardId)]

/-- `UrlService.Update`. -/
def update (id : ShortId) (userId : UserId) (destinationUrl : String) :
    Except Refusal (ℤ × Request) := do
  if id.range ≠ userId.shardId then
    .error (.permissionDenied (shardIds id userId)
      s!"Shard id mismatch: {id.range} != {userId.shardId}")
  else
    let shortId ← ofExec id.toString
    .ok (id.range, .update userId.id shortId (withScheme env destinationUrl))

/-- `UrlService.Delete`. -/
def delete (id : ShortId) (userId : UserId) : Except Refusal (ℤ × Request) := do
  if id.range ≠ userId.shardId then
    .error (.permissionDenied (shardIds id userId) "Shard id mismatch")
  else
    let shortId ← ofExec id.toString
    .ok (id.range, .delete userId.id shortId)

/-- The rule for `DestinationUrl`. -/
def destinationRule (destinationUrl : String) : Bool :=
  notEmpty destinationUrl && (isValidHttpUrl tryCreate destinationUrl).isSome

/-- `ShortIdValidator`. -/
def shortIdRule (shortId : String) : Bool := notEmpty shortId && isValidBase62 shortId

/-- `ShortUrlValidator`, which is also the rule for `ShortUrl`. -/
def shortUrlRule (shortUrl : String) : Bool :=
  notEmpty shortUrl && (tryParseUrl tryCreate shortUrl matches .ret (some _))

/-- `UrlController` and `Mutation`, for a user that `JwtHandler` has put into the context. -/
def handleFor (canShardCreateNewUrl : ℤ → Bool) (userId : UserId) :
    ClientRequest → Except Refusal (ℤ × Request)
  | .restCreate destinationUrl =>
    if ¬ destinationRule tryCreate destinationUrl then .error .badRequest
    else create env canShardCreateNewUrl userId destinationUrl
  | .restUpdate shortId destinationUrl =>
    if ¬ (destinationRule tryCreate destinationUrl ∧ shortIdRule shortId) then .error .badRequest
    else do
      let id ← ofExec (parseId shortId)
      if id.range ≠ userId.shardId then .error .forbid else update env id userId destinationUrl
  | .restDelete shortId =>
    if ¬ shortIdRule shortId then .error .badRequest
    else do
      let id ← ofExec (parseId shortId)
      if id.range ≠ userId.shardId then .error .forbid else delete id userId
  | .createUrl destinationUrl =>
    if ¬ destinationRule tryCreate destinationUrl then .error .invalidInput
    else create env canShardCreateNewUrl userId destinationUrl
  | .updateUrl shortUrl destinationUrl =>
    if ¬ (shortUrlRule tryCreate shortUrl ∧ destinationRule tryCreate destinationUrl) then
      .error .invalidInput
    else do
      let id ← ofExec (parseUrl tryCreate shortUrl)
      if id.range ≠ userId.shardId then .error (.graphQL "Forbidden")
      else update env id userId destinationUrl
  | .deleteUrl shortUrl =>
    if ¬ shortUrlRule tryCreate shortUrl then .error .invalidInput
    else do
      let id ← ofExec (parseUrl tryCreate shortUrl)
      if id.range ≠ userId.shardId then .error (.graphQL "Forbidden") else delete id userId

/-- `JwtHandler`, and then the request. -/
def handle (canShardCreateNewUrl : ℤ → Bool) (sub : String) (request : ClientRequest) :
    Except Refusal (ℤ × Request) :=
  match UserId.tryParse sub with
  | none => .error (.invalidToken sub)
  | some userId => handleFor env tryCreate canShardCreateNewUrl userId request

end

section

variable {env : Globalization} {tryCreate : String → Option Uri} {canShardCreateNewUrl : ℤ → Bool}
  {userId : UserId} {id : ShortId} {r : ℤ} {request : Request}

/-- The request is for the user, and goes to the user's shard. -/
def SentFor (userId : UserId) (r : ℤ) (request : Request) : Prop :=
  r = userId.shardId ∧ request.userId = userId.id

theorem create_ok {destinationUrl : String}
    (h : create env canShardCreateNewUrl userId destinationUrl = .ok (r, request)) :
    SentFor userId r request := by
  unfold create at h
  split_ifs at h
  obtain ⟨rfl, rfl⟩ := Prod.mk.inj (Except.ok.inj h)
  exact ⟨rfl, rfl⟩

/-- From a computation that may refuse. -/
theorem bind_ok {α β : Type} {x : Except Refusal α} {f : α → Except Refusal β} {b : β}
    (h : (x >>= f) = .ok b) : ∃ a, f a = .ok b := by
  cases x with
  | error e => cases h
  | ok a => exact ⟨a, h⟩

theorem update_ok {destinationUrl : String}
    (h : update env id userId destinationUrl = .ok (r, request)) : SentFor userId r request := by
  unfold update at h
  split_ifs at h with hrange
  obtain ⟨shortId, h⟩ := bind_ok h
  obtain ⟨rfl, rfl⟩ := Prod.mk.inj (Except.ok.inj h)
  exact ⟨not_not.mp hrange, rfl⟩

theorem delete_ok (h : delete id userId = .ok (r, request)) : SentFor userId r request := by
  unfold delete at h
  split_ifs at h with hrange
  obtain ⟨shortId, h⟩ := bind_ok h
  obtain ⟨rfl, rfl⟩ := Prod.mk.inj (Except.ok.inj h)
  exact ⟨not_not.mp hrange, rfl⟩

theorem handleFor_ok {clientRequest : ClientRequest}
    (h : handleFor env tryCreate canShardCreateNewUrl userId clientRequest = .ok (r, request)) :
    SentFor userId r request := by
  cases clientRequest with
  | restCreate destinationUrl =>
    simp only [handleFor] at h
    split_ifs at h
    exact create_ok h
  | createUrl destinationUrl =>
    simp only [handleFor] at h
    split_ifs at h
    exact create_ok h
  | restUpdate shortId destinationUrl =>
    simp only [handleFor] at h
    split_ifs at h
    obtain ⟨id, h⟩ := bind_ok h
    split_ifs at h
    exact update_ok h
  | restDelete shortId =>
    simp only [handleFor] at h
    split_ifs at h
    obtain ⟨id, h⟩ := bind_ok h
    split_ifs at h
    exact delete_ok h
  | updateUrl shortUrl destinationUrl =>
    simp only [handleFor] at h
    split_ifs at h
    obtain ⟨id, h⟩ := bind_ok h
    split_ifs at h
    exact update_ok h
  | deleteUrl shortUrl =>
    simp only [handleFor] at h
    split_ifs at h
    obtain ⟨id, h⟩ := bind_ok h
    split_ifs at h
    exact delete_ok h

/-- What a frontend sends belongs to the user of the token. -/
theorem handle_ok {sub : String} {clientRequest : ClientRequest}
    (h : handle env tryCreate canShardCreateNewUrl sub clientRequest = .ok (r, request)) :
    UserId.tryParse sub = some ⟨r, request.userId⟩ := by
  unfold handle at h
  split at h
  · cases h
  · rename_i userId huser
    obtain ⟨rfl, hid⟩ := handleFor_ok h
    rw [huser, hid]

end

end Shortener.Links
