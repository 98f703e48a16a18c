import Shortener.Links.Frontend
import Shortener.Urls.Arguments

/-!
# Keys of the pages in the cache

A frontend looks for a page under a key that it builds from the user of the token and the
arguments it was called with (`Shortener.FrontendShared/Services/UrlService.cs`, lines
140–176). The backend stores the page under a key that it builds from its own shard and from
the fields that are present in the request (`Shortener.GrpcBackend/Services/UrlService.cs`,
lines 226–232 and 301–314).

* `UserId.toString_injective`: two users are never printed alike.
* `found_for_its_query`: a page that is found for a query was computed for the same request.
-/

namespace Shortener.Urls

open Shortener.Common Shortener.DotNet Shortener.Codec Shortener.Links

/-! ## Keys -/

/-- `GetUserHashKey`. -/
def getUserHashKey (userId : UserId) : String := "User:" ++ userId.toString

/-- Where a page is kept: the key of a hash of Redis, and the entry in the hash. -/
structure PageKey where
  hashKey : String
  entryKey : String
  deriving DecidableEq, Repr

/-- Where `GetByUserId` of a frontend looks for the page. -/
def lookedUp (userId : UserId) (input : GetUrlsInput) : PageKey where
  hashKey := getUserHashKey userId
  entryKey := input.entryKey

/-- Where `UpdateUrlStatsPaginationCacheInBackground` of shard `shardId` stores the page. -/
def storedUnder (shardId : ℤ) (request : GetUrlsByUserIdRequest) : PageKey where
  hashKey := getUserHashKey ⟨shardId, request.userId⟩
  entryKey := request.entryKey

/-- The requests ask for the same page; an absent cursor counts as the empty text. -/
structure GetUrlsByUserIdRequest.SamePage (request request' : GetUrlsByUserIdRequest) : Prop where
  first : request.first = request'.first
  after : request.after.getD "" = request'.after.getD ""
  last : request.last = request'.last
  before : request.before.getD "" = request'.before.getD ""

/-! ## Users -/

theorem toString_int_injective {n m : ℤ} (h : (toString n).toList = (toString m).toList) :
    n = m := by
  have hn := tryParse_toString n
  rw [h, tryParse_toString] at hn
  exact (Option.some.inj hn).symm

theorem not_mem_toString_int (n : ℤ) : ':' ∉ (toString n).toList :=
  fun hmem => (of_mem_toString hmem).2 rfl

/-- Two users are never printed alike. -/
theorem UserId.toString_injective {userId userId' : UserId}
    (h : userId.toString = userId'.toString) : userId = userId' := by
  have hlist : ∀ u : UserId, u.toString.toList =
      (toString u.shardId).toList ++ ':' :: (toString u.id).toList := by
    intro u
    simp [UserId.toString]
  have htexts := congrArg String.toList h
  rw [hlist, hlist] at htexts
  obtain ⟨hshard, hid⟩ :=
    append_delimiter_inj (not_mem_toString_int _) (not_mem_toString_int _) htexts
  exact UserId.ext (toString_int_injective hshard) (toString_int_injective hid)

theorem getUserHashKey_injective {userId userId' : UserId}
    (h : getUserHashKey userId = getUserHashKey userId') : userId = userId' := by
  have htexts := congrArg String.toList h
  simp only [getUserHashKey, String.toList_append, List.append_right_inj] at htexts
  exact UserId.toString_injective (String.toList_inj.mp htexts)

/-! ## Requests -/

variable {userId userId' : ℤ} {query query' : GetUrlsInput}

@[simp] theorem userId_request : (query.request userId).userId = userId := by
  unfold GetUrlsInput.request
  split <;> rfl

/-- The arguments of a request that are sent are those it is stored under. -/
theorem samePage_of_entryKey (hv : query.IsValid) (hv' : query'.IsValid)
    (h : (query'.request userId').entryKey = query.entryKey) :
    (query.request userId).SamePage (query'.request userId') := by
  rw [← entryKey_sent hv'] at h
  obtain ⟨hfirst, hafter, hlast, hbefore⟩ := entryKey_inj (isValid_sent hv') hv h
  simp only [GetUrlsInput.sent] at hfirst hafter hlast hbefore
  unfold GetUrlsInput.request
  rw [hfirst, hlast]
  cases query.first with
  | some first => exact ⟨rfl, hafter.symm, rfl, rfl⟩
  | none =>
    cases hl : query.last with
    | some last =>
      rw [hlast, hl] at hbefore
      exact ⟨rfl, rfl, rfl, hbefore.symm⟩
    | none => exact ⟨rfl, rfl, rfl, rfl⟩

/-- **A page that is found for a query was computed for the same request.** The request of
`q'` goes to the shard of `u'`, which stores the page under its own id; where it lies is where
a frontend looks for `q` of `u`. -/
theorem found_for_its_query {u u' : UserId} {q q' : GetUrlsInput} (hv : q.IsValid)
    (hv' : q'.IsValid) (h : storedUnder u'.shardId (q'.request u'.id) = lookedUp u q) :
    u = u' ∧ (q.request u.id).SamePage (q'.request u'.id) := by
  have hhash : getUserHashKey ⟨u'.shardId, (q'.request u'.id).userId⟩ = getUserHashKey u :=
    congrArg PageKey.hashKey h
  rw [userId_request] at hhash
  have hentry : (q'.request u'.id).entryKey = q.entryKey := congrArg PageKey.entryKey h
  exact ⟨(getUserHashKey_injective hhash).symm, samePage_of_entryKey hv hv' hentry⟩

/-- The last ten links, asked for without a cursor and with an empty one. -/
theorem found_for_its_query_lastTen :
    (⟨1, 7⟩ : UserId) = ⟨1, 7⟩ ∧
      ((⟨none, none, some 10, some ""⟩ : GetUrlsInput).request 7).SamePage
        ((⟨none, none, some 10, none⟩ : GetUrlsInput).request 7) :=
  found_for_its_query (by decide) (by decide) (by decide +kernel)

end Shortener.Urls
