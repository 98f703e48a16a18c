import Shortener.Codec.HttpUrl
import Shortener.Stats.Cached

/-!
# URLs by their ids

`UrlService.GetByIds` of the frontends (`Shortener.FrontendShared/Services/UrlService.cs`, lines
84–138) with `Get` for a list of keys (`Shortener.Shared/Services/CacheService.cs`, lines 57–73).
The keys of the cache, the ids in requests and the keys of the result have three forms:
`Url-Stats:{id}`, the printed id and the short URL. The call of the backend is a parameter.

* `lookUp_eq`: after the loop over the cached URLs every id is still to be queried, since `Remove`
  is called with keys of the cache.
* `cacheIndependent_iff`: the cache changes nothing exactly when it holds all of the URLs or none.
-/

namespace Shortener.Urls.Batch

open Shortener.Codec Shortener.DotNet Shortener.Stats

/-! ## The cache -/

/-- `CacheUtils.GetUrlStatsKey` of a printed id. -/
def urlStatsKey (shortId : String) : String := "Url-Stats:" ++ shortId

/-- `CacheUtils.GetUrlStatsKey`. -/
def getUrlStatsKey (shortId : ShortId) : Exec String := urlStatsKey <$> shortId.toString

/-- One element of the answer to `MGET`. -/
def readValue {α : Type} (read : Json → Exec (Option α)) (value : Option Json) : Exec (Option α) :=
  value.elim (.ret none) read

/-- `Get<T>(keys)`. -/
def cacheGet {α : Type} (read : Json → Exec (Option α)) (cache : String → Option Json)
    (keys : List String) : Exec (Option (Dictionary String (Option α))) := do
  let cachedData ← keys.foldlM (fun (cachedData : Dictionary String (Option α)) key => do
    let value ← readValue read (cache key)
    cachedData.add key value) ∅
  return if cachedData.keys.length = 0 then none else some cachedData

/-! ## `GetByIds` -/

/-- `UrlStats` of the frontends. -/
structure Dtos.UrlStats where
  shortUrl : String
  destinationUrl : Option String
  totalViews : ℤ
  lastDay : Option ViewStats
  lastWeek : Option ViewStats
  lastMonth : Option ViewStats
  allTime : Option ViewStats

/-- What the constructor copies. -/
def Dtos.UrlStats.at (shortUrl : String) (stats : UrlStatsObject) : Dtos.UrlStats where
  shortUrl := shortUrl
  destinationUrl := stats.destinationUrl
  totalViews := stats.totalViews
  lastDay := stats.lastDay
  lastWeek := stats.lastWeek
  lastMonth := stats.lastMonth
  allTime := stats.allTime

/-- `new UrlStats(stats, shortUrlService)`. -/
def Dtos.UrlStats.ofStats (service : ShortUrlService) (stats : UrlStatsObject) :
    Exec Dtos.UrlStats := do
  let shortUrl ← service.get stats.shortId
  return .at shortUrl stats

/-- The statistics that have been found, by their short URLs. -/
abbrev ByShortUrl := Dictionary String Dtos.UrlStats

section

variable (service : ShortUrlService)

/-- `urls.Add(shortUrlService.Get(url.ShortId), new UrlStats(url, shortUrlService))`. -/
def addUrl (urls : ByShortUrl) (url : UrlStatsObject) : Exec ByShortUrl := do
  let shortUrl ← service.get url.shortId
  let stats ← Dtos.UrlStats.ofStats service url
  urls.add shortUrl stats

/-- The body of the loop over `cachedUrls`, on `urls` and `idsToQuery`. -/
def addCached (state : ByShortUrl × List String) (entry : Σ _ : String, Option UrlStatsObject) :
    Exec (ByShortUrl × List String) :=
  match entry.2 with
  | none => .ret state
  | some url => do
    let urls ← addUrl service state.1 url
    return (urls, state.2.erase entry.1)

/-- The body of the loop over the reply. -/
def addRow (urls : ByShortUrl) (url : Grpc.UrlStats) : Exec ByShortUrl := do
  let shortUrl ← service.get (some url.shortId)
  let stats ← UrlStats.ofGrpc url
  let stats ← Dtos.UrlStats.ofStats service stats.toObject
  urls.add shortUrl stats

/-- `urls` and `idsToQuery` after the loop over `cachedUrls` (lines 99–118). -/
def lookUp (cache : String → Option Json) (ids : List ShortId) : Exec (ByShortUrl × List String) := do
  let cacheKeys ← ids.mapM getUrlStatsKey
  let idsToQuery ← ids.mapM ShortId.toString
  let cachedUrls ← cacheGet urlStatsContract.converter.read cache cacheKeys
  match cachedUrls with
  | none => return (∅, idsToQuery)
  | some cachedUrls => cachedUrls.entries.foldlM (addCached service) (∅, idsToQuery)

/-- `ArgumentException` of lines 90 and 96. -/
def invalidIds : Exn := .argument "Invalid ids" (some "ids")

/-- The ids in the request to the backend, if one is sent, and the outcome. -/
structure Answer where
  asked : Option (List String)
  outcome : Exec ByShortUrl

/-- `GetByIds`; `getByIdsAsync` is the client of a shard. -/
def getByIds (getByIdsAsync : ℤ → List String → Exec (List Grpc.UrlStats))
    (cache : String → Option Json) (ids : List ShortId) : Answer :=
  match ids with
  | [] => ⟨none, .throw invalidIds⟩
  | first :: _ =>
    if ids.any fun id => id.range ≠ first.range then ⟨none, .throw invalidIds⟩
    else
      match lookUp service cache ids with
      | .throw e => ⟨none, .throw e⟩
      | .diverge => ⟨none, .diverge⟩
      | .ret (urls, idsToQuery) =>
        if urls.keys.length = ids.length then ⟨none, .ret urls⟩
        else
          ⟨some idsToQuery, do
            let reply ← getByIdsAsync first.range idsToQuery
            reply.foldlM (addRow service) urls⟩

end

/-! ## Existing URLs -/

/-- Distinct ids of URLs of the shard `r`, which `Convert` turns into `stats`. -/
structure Existing (r : ℤ) (stats : ShortId → UrlStats) (ids : List ShortId) : Prop where
  shard : IsShardId r
  nodup : ids.Nodup
  range : ∀ id ∈ ids, id.range = r
  index : ∀ id ∈ ids, IsInt32 id.index
  printed : ∀ id ∈ ids, id.toString = .ret (stats id).shortId

/-- The cache has a value under the key of the id. -/
def IsCached (cache : String → Option Json) (id : ShortId) : Prop :=
  ∃ key, getUrlStatsKey id = .ret key ∧ (cache key).isSome

/-- The values in the cache are read as the statistics of their URLs. -/
def CachedCorrectly (cache : String → Option Json) (stats : ShortId → UrlStats)
    (ids : List ShortId) : Prop :=
  ∀ id ∈ ids, ∀ key json, getUrlStatsKey id = .ret key → cache key = some json →
    ∃ url, urlStatsContract.converter.read json = .ret (some (UrlStats.toObject url)) ∧
      url.Same (stats id)

/-- The backend returns the rows of the requested ids, in some order. -/
def ReturnsRows (getByIdsAsync : ℤ → List String → Exec (List Grpc.UrlStats)) (r : ℤ)
    (stats : ShortId → UrlStats) (ids : List ShortId) : Prop :=
  ∀ requested, requested ≠ [] → requested.Nodup → requested ⊆ ids →
    ∃ rows : List ShortId, rows.Perm requested ∧
      getByIdsAsync r (requested.map fun id => (stats id).shortId) =
        .ret (rows.map fun id => (stats id).serialize)

theorem urlStatsKey_injective : Function.Injective urlStatsKey := by
  intro s t h
  exact (String.append_right_inj _).mp h

/-- A key of the cache is longer than a code. -/
theorem not_isCode_urlStatsKey (s : String) : ¬ IsCode (urlStatsKey s) := by
  intro h
  have hlen : (urlStatsKey s).length = 10 + s.length := String.length_append ..
  have := h.1
  omega

theorem mapM_getUrlStatsKey_of_printed {stats : ShortId → UrlStats} {ids : List ShortId}
    (h : ∀ id ∈ ids, id.toString = .ret (stats id).shortId) :
    ids.mapM getUrlStatsKey = .ret (ids.map fun id => urlStatsKey (stats id).shortId) := by
  rw [Exec.mapM_eq_ret_iff, List.forall₂_map_right_iff]
  refine List.forall₂_same.mpr fun id hid => ?_
  rw [getUrlStatsKey, h id hid]
  rfl

namespace Existing

variable {r : ℤ} {stats : ShortId → UrlStats} {ids : List ShortId} (h : Existing r stats ids)

include h

theorem isCode {id : ShortId} (hid : id ∈ ids) : IsCode (stats id).shortId :=
  (ShortId.isCode_of_toString (h.printed id hid)).1

/-- On one shard the printed ids are distinct, also those that belong to a later shard. -/
theorem eq_of_shortId {id id' : ShortId} (hid : id ∈ ids) (hid' : id' ∈ ids)
    (heq : (stats id).shortId = (stats id').shortId) : id = id' := by
  have hval := (ShortId.isCode_of_toString (h.printed id hid)).2
  have hval' := (ShortId.isCode_of_toString (h.printed id' hid')).2
  have hrange := h.range id hid
  have hrange' := h.range id' hid'
  rw [ShortId.base10Id_eq (hrange ▸ h.shard) (h.index id hid), hrange] at hval
  rw [ShortId.base10Id_eq (hrange' ▸ h.shard) (h.index id' hid'), hrange', ← heq] at hval'
  exact ShortId.ext (hrange.trans hrange'.symm) (by omega)

theorem nodup_shortIds : (ids.map fun id => (stats id).shortId).Nodup :=
  h.nodup.map_on fun _ hid _ hid' heq => h.eq_of_shortId hid hid' heq

theorem getUrlStatsKey_eq {id : ShortId} (hid : id ∈ ids) :
    getUrlStatsKey id = .ret (urlStatsKey (stats id).shortId) := by
  rw [getUrlStatsKey, h.printed id hid]
  rfl

theorem isCached_iff {cache : String → Option Json} {id : ShortId} (hid : id ∈ ids) :
    IsCached cache id ↔ (cache (urlStatsKey (stats id).shortId)).isSome := by
  rw [IsCached, h.getUrlStatsKey_eq hid]
  simp

theorem mapM_toString : ids.mapM ShortId.toString = .ret (ids.map fun id => (stats id).shortId) := by
  rw [Exec.mapM_eq_ret_iff, List.forall₂_map_right_iff]
  exact List.forall₂_same.mpr h.printed

theorem mapM_getUrlStatsKey :
    ids.mapM getUrlStatsKey = .ret (ids.map fun id => urlStatsKey (stats id).shortId) :=
  mapM_getUrlStatsKey_of_printed h.printed

theorem mapM_getById (service : ShortUrlService) :
    ids.mapM service.getById = .ret (ids.map fun id => service.link (stats id).shortId) := by
  rw [Exec.mapM_eq_ret_iff, List.forall₂_map_right_iff]
  exact List.forall₂_same.mpr fun id hid => service.getById_eq (h.printed id hid)

end Existing

/-! ## The loops -/

/-- There is a value for the URL. -/
def isHit (cache : String → Option Json) (stats : ShortId → UrlStats) (id : ShortId) : Bool :=
  (cache (urlStatsKey (stats id).shortId)).isSome

/-- The entry of `cachedUrls`, if the cache has no other values than those `found`. -/
def cachedEntry (cache : String → Option Json) (stats found : ShortId → UrlStats) (id : ShortId) :
    Σ _ : String, Option UrlStatsObject :=
  ⟨urlStatsKey (stats id).shortId, if isHit cache stats id then some (found id).toObject else none⟩

section

variable {service : ShortUrlService}

/-- What one URL adds to the result. -/
def urlEntry (service : ShortUrlService) (url : UrlStats) : Σ _ : String, Dtos.UrlStats :=
  ⟨service.link url.shortId, .at (service.link url.shortId) url.toObject⟩

theorem addUrl_eq {url : UrlStats} (hcode : IsCode url.shortId) (urls : ByShortUrl) :
    addUrl service urls url.toObject =
      urls.add (urlEntry service url).1 (urlEntry service url).2 := by
  have hget : service.get url.toObject.shortId = .ret (service.link url.shortId) :=
    service.get_code hcode
  rw [addUrl, Dtos.UrlStats.ofStats, hget]
  rfl

theorem addRow_eq {url : UrlStats} (hcode : IsCode url.shortId) (urls : ByShortUrl) :
    addRow service urls url.serialize =
      urls.add (urlEntry service url.copied).1 (urlEntry service url.copied).2 := by
  have hget : service.get (some url.shortId) = .ret (service.link url.shortId) :=
    service.get_code hcode
  rw [← addUrl_eq (show IsCode url.copied.shortId from hcode), addUrl, addRow,
    UrlStats.ofGrpc_serialize]
  show service.get (some url.shortId) >>= _ = service.get (some url.shortId) >>= _
  rw [hget]
  rfl

/-- The values of distinct keys. -/
theorem cacheGet_eq {α : Type} {read : Json → Exec (Option α)} {cache : String → Option Json}
    {entries : List (Σ _ : String, Option α)} (hne : entries ≠ []) (hnodup : entries.NodupKeys)
    (hread : ∀ entry ∈ entries, readValue read (cache entry.1) = .ret entry.2) :
    ∃ cachedData, cacheGet read cache (entries.map Sigma.fst) = .ret (some cachedData) ∧
      cachedData.entries = entries.reverse := by
  have hreverse : entries.reverse.NodupKeys :=
    (List.perm_nodupKeys (List.reverse_perm entries)).mpr hnodup
  refine ⟨⟨entries.reverse, hreverse⟩, ?_, rfl⟩
  have hloop : (entries.map Sigma.fst).foldlM (fun (cachedData : Dictionary String (Option α)) key => do
      let value ← readValue read (cache key)
      cachedData.add key value) ∅ = .ret ⟨entries.reverse, hreverse⟩ := by
    rw [List.foldlM_map, ← Dictionary.foldlM_add (d := ∅) (List.append_nil entries.reverse).symm]
    apply Exec.foldlM_congr
    intro entry hentry cachedData
    rw [hread entry hentry, Exec.ret_bind]
  have hcount : (AList.mk entries.reverse hreverse).keys.length ≠ 0 := by
    show (entries.reverse.map Sigma.fst).length ≠ 0
    rw [List.length_map, List.length_reverse]
    exact List.length_pos_iff.mpr hne |>.ne'
  rw [cacheGet, hloop, Exec.ret_bind, Exec.pure_eq, if_neg hcount]

/-- The loop over the cached URLs adds those that are there. Each of its calls of `Remove` is for
    a key of the cache, and these are not among the ids. -/
theorem foldlM_addCached {cache : String → Option Json} {stats found : ShortId → UrlStats}
    {idsToQuery : List String} {ids : List ShortId} (hcode : ∀ id ∈ ids, IsCode (found id).shortId)
    (hkey : ∀ id ∈ ids, urlStatsKey (stats id).shortId ∉ idsToQuery) (urls : ByShortUrl) :
    (ids.map (cachedEntry cache stats found)).foldlM (addCached service) (urls, idsToQuery) =
      (fun urls => (urls, idsToQuery)) <$>
        ((ids.filter (isHit cache stats)).map fun id => urlEntry service (found id)).foldlM
          (fun (urls : ByShortUrl) entry => urls.add entry.1 entry.2) urls := by
  induction ids generalizing urls with
  | nil => rfl
  | cons id ids ih =>
    have ih' := ih (fun id hid => hcode id (List.mem_cons_of_mem _ hid))
      fun id hid => hkey id (List.mem_cons_of_mem _ hid)
    rw [List.map_cons, List.foldlM_cons, addCached, cachedEntry]
    cases hhit : isHit cache stats id with
    | false =>
      rw [List.filter_cons_of_neg (by simp [hhit])]
      exact ih' urls
    | true =>
      rw [List.filter_cons_of_pos hhit, List.map_cons, List.foldlM_cons]
      show (addUrl service urls (found id).toObject >>= fun urls =>
        Exec.ret (urls, idsToQuery.erase (urlStatsKey (stats id).shortId))) >>= _ = _
      rw [addUrl_eq (hcode id List.mem_cons_self), List.erase_of_not_mem (hkey id List.mem_cons_self)]
      cases hadd : urls.add (urlEntry service (found id)).1 (urlEntry service (found id)).2 with
      | ret urls' => exact ih' urls'
      | throw e => rfl
      | diverge => rfl

end

/-! ## What `GetByIds` does -/

/-- The fields agree, and the dictionaries in them entry by entry. -/
structure Dtos.UrlStats.Same (s t : Dtos.UrlStats) : Prop where
  shortUrl : s.shortUrl = t.shortUrl
  destinationUrl : s.destinationUrl = t.destinationUrl
  totalViews : s.totalViews = t.totalViews
  lastDay : Option.Rel ViewStats.Same s.lastDay t.lastDay
  lastWeek : Option.Rel ViewStats.Same s.lastWeek t.lastWeek
  lastMonth : Option.Rel ViewStats.Same s.lastMonth t.lastMonth
  allTime : Option.Rel ViewStats.Same s.allTime t.allTime

/-- The same keys with the same statistics. -/
def SameUrls (urls urls' : ByShortUrl) : Prop :=
  ∀ shortUrl, Option.Rel Dtos.UrlStats.Same (urls.lookup shortUrl) (urls'.lookup shortUrl)

section

variable {service : ShortUrlService} {r : ℤ} {stats : ShortId → UrlStats} {ids : List ShortId}
  {cache : String → Option Json} {getByIdsAsync : ℤ → List String → Exec (List Grpc.UrlStats)}

/-- The keys are the short URLs. -/
theorem map_fst_urlEntry (service : ShortUrlService) {part : List ShortId}
    {found : ShortId → UrlStats} (hsame : ∀ id ∈ part, (found id).Same (stats id)) :
    (part.map fun id => urlEntry service (found id)).map Sigma.fst =
      part.map fun id => service.link (stats id).shortId := by
  rw [List.map_map]
  refine List.map_congr_left fun id hid => ?_
  show service.link (found id).shortId = service.link (stats id).shortId
  rw [(hsame id hid).shortId]

theorem Existing.nodupKeys (h : Existing r stats ids) (service : ShortUrlService)
    {part : List ShortId} {found : ShortId → UrlStats} (hsub : part.Sublist ids)
    (hsame : ∀ id ∈ ids, (found id).Same (stats id)) :
    (part.map fun id => urlEntry service (found id)).NodupKeys := by
  show (List.map Sigma.fst _).Nodup
  rw [map_fst_urlEntry service fun id hid => hsame id (hsub.subset hid)]
  have hlinks := (h.nodup_shortIds.sublist (hsub.map _)).map service.link_injective
  rwa [List.map_map] at hlinks

/-- The cache has these statistics for its hits. -/
def Found (cache : String → Option Json) (stats found : ShortId → UrlStats)
    (ids : List ShortId) : Prop :=
  ∀ id ∈ ids, (found id).Same (stats id) ∧
    readValue urlStatsContract.converter.read (cache (urlStatsKey (stats id).shortId)) =
      .ret (cachedEntry cache stats found id).2

/-- What the cache has for the ids, filled up with the right statistics. -/
theorem CachedCorrectly.exists_found (h : Existing r stats ids)
    (hcache : CachedCorrectly cache stats ids) : ∃ found, Found cache stats found ids := by
  have hfound : ∀ id, ∃ url : UrlStats, id ∈ ids → url.Same (stats id) ∧
      readValue urlStatsContract.converter.read (cache (urlStatsKey (stats id).shortId)) =
        .ret (if isHit cache stats id then some url.toObject else none) := by
    intro id
    unfold isHit
    cases hvalue : cache (urlStatsKey (stats id).shortId) with
    | none => exact ⟨stats id, fun _ => ⟨.refl _, rfl⟩⟩
    | some json =>
      by_cases hid : id ∈ ids
      · obtain ⟨url, hread, hsame⟩ := hcache id hid _ json (h.getUrlStatsKey_eq hid) hvalue
        exact ⟨url, fun _ => ⟨hsame, hread⟩⟩
      · exact ⟨stats id, fun hid' => absurd hid' hid⟩
  choose found hfound using hfound
  exact ⟨found, fun id => hfound id⟩

theorem Found.cacheGet_eq (h : Existing r stats ids) (hne : ids ≠ []) {found : ShortId → UrlStats}
    (hfound : Found cache stats found ids) :
    ∃ cachedUrls, cacheGet urlStatsContract.converter.read cache
        (ids.map fun id => urlStatsKey (stats id).shortId) = .ret (some cachedUrls) ∧
      cachedUrls.entries = (ids.map (cachedEntry cache stats found)).reverse := by
  have hkeys : (ids.map (cachedEntry cache stats found)).map Sigma.fst =
      ids.map fun id => urlStatsKey (stats id).shortId := List.map_map
  have hnodup : (ids.map (cachedEntry cache stats found)).NodupKeys := by
    show (List.map Sigma.fst _).Nodup
    have := h.nodup_shortIds.map urlStatsKey_injective
    rw [List.map_map] at this
    rwa [hkeys]
  rw [← hkeys]
  apply Batch.cacheGet_eq _ hnodup
  · intro entry hentry
    obtain ⟨id, hid, rfl⟩ := List.mem_map.mp hentry
    exact (hfound id hid).2
  · simpa using hne

/-- After the first loop every id is still to be queried. -/
theorem lookUp_eq (h : Existing r stats ids) (hne : ids ≠ []) {found : ShortId → UrlStats}
    (hfound : Found cache stats found ids) :
    ∃ urls : ByShortUrl,
      lookUp service cache ids = .ret (urls, ids.map fun id => (stats id).shortId) ∧
      urls.entries =
        (ids.filter (isHit cache stats)).map fun id => urlEntry service (found id) := by
  have hsame : ∀ id ∈ ids, (found id).Same (stats id) := fun id hid => (hfound id hid).1
  have hcode : ∀ id ∈ ids.reverse, IsCode (found id).shortId := by
    intro id hid
    rw [(hsame id (List.mem_reverse.mp hid)).shortId]
    exact h.isCode (List.mem_reverse.mp hid)
  have hkey : ∀ id ∈ ids.reverse,
      urlStatsKey (stats id).shortId ∉ ids.map fun id => (stats id).shortId := by
    intro id _ hmem
    obtain ⟨id', hid', heq⟩ := List.mem_map.mp hmem
    exact not_isCode_urlStatsKey _ (heq ▸ h.isCode hid')
  obtain ⟨cachedUrls, hget, hentries⟩ := hfound.cacheGet_eq h hne
  -- the loop goes over the ids from the last one to the first
  have hnodup := h.nodupKeys service (List.filter_sublist (p := isHit cache stats)) hsame
  have hadd : ((ids.reverse.filter (isHit cache stats)).map fun id =>
      urlEntry service (found id)).foldlM
      (fun (urls : ByShortUrl) entry => urls.add entry.1 entry.2) ∅ = .ret ⟨_, hnodup⟩ := by
    apply Dictionary.foldlM_add
    rw [List.filter_reverse, ← List.map_reverse, List.reverse_reverse]
    exact (List.append_nil _).symm
  refine ⟨⟨_, hnodup⟩, ?_, rfl⟩
  rw [lookUp, h.mapM_getUrlStatsKey, h.mapM_toString, Exec.ret_bind, Exec.ret_bind, hget, Exec.ret_bind]
  show cachedUrls.entries.foldlM (addCached service) _ = _
  rw [hentries, ← List.map_reverse, foldlM_addCached hcode hkey, hadd]
  rfl

theorem getByIds_eq (h : Existing r stats ids) (hne : ids ≠ []) {urls : ByShortUrl}
    {idsToQuery : List String} (hlook : lookUp service cache ids = .ret (urls, idsToQuery)) :
    getByIds service getByIdsAsync cache ids =
      if urls.keys.length = ids.length then ⟨none, .ret urls⟩
      else ⟨some idsToQuery, getByIdsAsync r idsToQuery >>= fun reply =>
        reply.foldlM (addRow service) urls⟩ := by
  cases ids with
  | nil => exact absurd rfl hne
  | cons first rest =>
    have hfirst : first.range = r := h.range first List.mem_cons_self
    have hrange : ¬ (first :: rest).any fun id => id.range ≠ first.range := by
      simp only [List.any_eq_true, decide_eq_true_eq, not_exists, not_and, not_not]
      intro id hid
      rw [h.range id hid, hfirst]
    rw [getByIds, if_neg hrange, hlook, hfirst]

variable (service)

/-- With every URL in the cache the backend is not asked. -/
theorem getByIds_hit (getByIdsAsync : ℤ → List String → Exec (List Grpc.UrlStats))
    (h : Existing r stats ids) (hne : ids ≠ []) {found : ShortId → UrlStats}
    (hfound : Found cache stats found ids) (hhit : ∀ id ∈ ids, isHit cache stats id) :
    ∃ urls : ByShortUrl, getByIds service getByIdsAsync cache ids = ⟨none, .ret urls⟩ ∧
      urls.entries = ids.map fun id => urlEntry service (found id) := by
  obtain ⟨urls, hlook, hentries⟩ := lookUp_eq h hne hfound
  rw [List.filter_eq_self.mpr hhit] at hentries
  have hcount : urls.keys.length = ids.length := by
    show (urls.entries.map Sigma.fst).length = ids.length
    rw [hentries, List.length_map, List.length_map]
  refine ⟨urls, ?_, hentries⟩
  rw [getByIds_eq h hne hlook, if_pos hcount]

/-- Otherwise it is asked for all of them, and all are added to those from the cache. -/
theorem getByIds_miss (h : Existing r stats ids) (hne : ids ≠ []) {found : ShortId → UrlStats}
    (hfound : Found cache stats found ids) (hclient : ReturnsRows getByIdsAsync r stats ids)
    (hmiss : ∃ id ∈ ids, ¬ isHit cache stats id) :
    ∃ (urls : ByShortUrl) (rows : List ShortId), rows.Perm ids ∧
      getByIds service getByIdsAsync cache ids = ⟨some (ids.map fun id => (stats id).shortId),
        (rows.map fun id => urlEntry service (stats id).copied).foldlM
          (fun (urls : ByShortUrl) entry => urls.add entry.1 entry.2) urls⟩ ∧
      urls.entries =
        (ids.filter (isHit cache stats)).map fun id => urlEntry service (found id) := by
  obtain ⟨urls, hlook, hentries⟩ := lookUp_eq h hne hfound
  obtain ⟨rows, hperm, hreply⟩ := hclient ids hne h.nodup (List.Subset.refl ids)
  have hcount : urls.keys.length ≠ ids.length := by
    show (urls.entries.map Sigma.fst).length ≠ ids.length
    rw [hentries, List.length_map, List.length_map]
    intro hlength
    obtain ⟨id, hid, hnot⟩ := hmiss
    exact hnot (List.length_filter_eq_length_iff.mp hlength id hid)
  refine ⟨urls, rows, hperm, ?_, hentries⟩
  rw [getByIds_eq h hne hlook, if_neg hcount, hreply, Exec.ret_bind, List.foldlM_map, List.foldlM_map]
  congr 1
  apply Exec.foldlM_congr
  intro id hid urls
  exact addRow_eq (h.isCode (hperm.subset hid)) urls

/-- What is copied from the same statistics under the same short URL is the same. -/
theorem at_same {url url' : UrlStats} (h : url.Same url') (shortUrl : String) :
    (Dtos.UrlStats.at shortUrl url.toObject).Same (.at shortUrl url'.toObject) :=
  ⟨rfl, congrArg some h.destinationUrl, h.totalViews, .some h.lastDay, .some h.lastWeek,
    .some h.lastMonth, .some h.allTime⟩

/-- Every id has its entry, in some order. -/
theorem sameUrls_of_entries {found found' : ShortId → UrlStats} {urls urls' : ByShortUrl}
    (hsame : ∀ id ∈ ids, (found id).Same (found' id))
    (hurls : urls.entries.Perm (ids.map fun id => urlEntry service (found id)))
    (hurls' : urls'.entries.Perm (ids.map fun id => urlEntry service (found' id))) :
    SameUrls urls urls' := by
  apply Dictionary.lookup_rel hurls hurls'
  intro id hid
  have h := hsame id hid
  have hlink : service.link (found id).shortId = service.link (found' id).shortId := by
    rw [h.shortId]
  refine ⟨hlink, ?_⟩
  show (Dtos.UrlStats.at _ _).Same (.at _ _)
  rw [hlink]
  exact at_same h _

/-! ## When the cache changes nothing -/

/-- The result is that of an empty cache, with one entry for each id under its short URL, and the
    backend is asked for no id that is cached. -/
def CacheIndependent (service : ShortUrlService)
    (getByIdsAsync : ℤ → List String → Exec (List Grpc.UrlStats)) (cache : String → Option Json)
    (ids : List ShortId) : Prop :=
  (∃ urls urls' shortUrls, (getByIds service getByIdsAsync cache ids).outcome = .ret urls ∧
    (getByIds service getByIdsAsync (fun _ => none) ids).outcome = .ret urls' ∧
    SameUrls urls urls' ∧ ids.mapM service.getById = .ret shortUrls ∧ urls.keys.Perm shortUrls) ∧
  ∀ shortIds ∈ (getByIds service getByIdsAsync cache ids).asked, ∀ shortId ∈ shortIds,
    ∃ id ∈ ids, id.toString = .ret shortId ∧ ¬ IsCached cache id

/-- With nothing in the cache the backend returns all. -/
theorem getByIds_none (h : Existing r stats ids) (hne : ids ≠ [])
    (hclient : ReturnsRows getByIdsAsync r stats ids)
    (hnone : ∀ id ∈ ids, ¬ isHit cache stats id) :
    ∃ urls : ByShortUrl, getByIds service getByIdsAsync cache ids =
        ⟨some (ids.map fun id => (stats id).shortId), .ret urls⟩ ∧
      urls.entries.Perm (ids.map fun id => urlEntry service (stats id).copied) := by
  have hfound : Found cache stats stats ids := by
    intro id hid
    refine ⟨.refl _, ?_⟩
    have hmiss := hnone id hid
    rw [isHit, Option.not_isSome_iff_eq_none] at hmiss
    rw [cachedEntry, isHit, hmiss]
    rfl
  obtain ⟨first, hfirst⟩ := List.exists_mem_of_ne_nil ids hne
  obtain ⟨urls, rows, hperm, hget, hentries⟩ :=
    getByIds_miss service h hne hfound hclient ⟨first, hfirst, hnone first hfirst⟩
  rw [List.filter_eq_nil_iff.mpr hnone] at hentries
  obtain rfl : urls = ∅ := AList.ext hentries
  have hnodup : (rows.map fun id => urlEntry service (stats id).copied).reverse.NodupKeys :=
    (List.perm_nodupKeys ((List.reverse_perm _).trans (hperm.map _))).mpr
      (h.nodupKeys service (List.Sublist.refl ids) fun id _ => (stats id).copied_same)
  refine ⟨⟨_, hnodup⟩, ?_, (List.reverse_perm _).trans (hperm.map _)⟩
  rw [hget]
  congr 1
  exact Dictionary.foldlM_add (List.append_nil _).symm

/-- A cached URL is added a second time when the backend returns it, too. -/
theorem not_returns_partly (h : Existing r stats ids) (hcache : CachedCorrectly cache stats ids)
    (hclient : ReturnsRows getByIdsAsync r stats ids) (hhit : ∃ id ∈ ids, isHit cache stats id)
    (hmiss : ∃ id ∈ ids, ¬ isHit cache stats id) :
    ¬ (getByIds service getByIdsAsync cache ids).outcome.Returns := by
  obtain ⟨found, hfound⟩ := hcache.exists_found h
  obtain ⟨id, hid, hcached⟩ := hhit
  obtain ⟨urls, rows, hperm, hget, hentries⟩ :=
    getByIds_miss service h (List.ne_nil_of_mem hid) hfound hclient hmiss
  rw [hget, Dictionary.foldlM_add_returns_iff, hentries, List.NodupKeys, List.keys, List.map_append]
  intro hnodup
  have hrow : service.link (stats id).shortId ∈
      (rows.map fun id => urlEntry service (stats id).copied).reverse.map Sigma.fst :=
    List.mem_map_of_mem (List.mem_reverse.mpr (List.mem_map_of_mem (hperm.mem_iff.mpr hid)))
  have hkept : service.link (found id).shortId ∈
      ((ids.filter (isHit cache stats)).map fun id => urlEntry service (found id)).map Sigma.fst :=
    List.mem_map_of_mem (List.mem_map_of_mem (List.mem_filter.mpr ⟨hid, hcached⟩))
  rw [(hfound id hid).1.shortId] at hkept
  exact List.disjoint_of_nodup_append hnodup hrow hkept

/-- It is enough that the result has the right statistics for each id. -/
theorem cacheIndependent_of_entries (h : Existing r stats ids) (hne : ids ≠ [])
    (hclient : ReturnsRows getByIdsAsync r stats ids) {asked : Option (List String)}
    {urls : ByShortUrl} (hget : getByIds service getByIdsAsync cache ids = ⟨asked, .ret urls⟩)
    {found : ShortId → UrlStats} (hsame : ∀ id ∈ ids, (found id).Same (stats id))
    (hentries : urls.entries.Perm (ids.map fun id => urlEntry service (found id)))
    (hasked : ∀ shortIds ∈ asked, ∀ shortId ∈ shortIds,
      ∃ id ∈ ids, id.toString = .ret shortId ∧ ¬ IsCached cache id) :
    CacheIndependent service getByIdsAsync cache ids := by
  have hempty : ∀ id ∈ ids, ¬ isHit (fun _ => none) stats id := fun _ _ => Bool.false_ne_true
  obtain ⟨urls', hget', hentries'⟩ := getByIds_none service h hne hclient hempty
  refine ⟨⟨urls, urls', _, by rw [hget], by rw [hget'], ?_, h.mapM_getById service, ?_⟩, ?_⟩
  · exact sameUrls_of_entries service
      (fun id hid => (hsame id hid).trans (stats id).copied_same.symm) hentries hentries'
  · rw [← map_fst_urlEntry service hsame]
    exact hentries.map Sigma.fst
  · rw [hget]
    exact hasked

theorem cacheIndependent_of_hit (h : Existing r stats ids) (hne : ids ≠ [])
    (hcache : CachedCorrectly cache stats ids) (hclient : ReturnsRows getByIdsAsync r stats ids)
    (hhit : ∀ id ∈ ids, isHit cache stats id) : CacheIndependent service getByIdsAsync cache ids := by
  obtain ⟨found, hfound⟩ := hcache.exists_found h
  obtain ⟨urls, hget, hentries⟩ := getByIds_hit service getByIdsAsync h hne hfound hhit
  apply cacheIndependent_of_entries service h hne hclient hget
    (fun id hid => (hfound id hid).1) (.of_eq hentries)
  intro shortIds hasked
  cases hasked

theorem cacheIndependent_of_none (h : Existing r stats ids) (hne : ids ≠ [])
    (hclient : ReturnsRows getByIdsAsync r stats ids)
    (hnone : ∀ id ∈ ids, ¬ isHit cache stats id) :
    CacheIndependent service getByIdsAsync cache ids := by
  obtain ⟨urls, hget, hentries⟩ := getByIds_none service h hne hclient hnone
  apply cacheIndependent_of_entries service h hne hclient hget
    (fun id _ => (stats id).copied_same) hentries
  intro shortIds hasked shortId hmem
  obtain rfl := Option.some.inj hasked
  obtain ⟨id, hid, rfl⟩ := List.mem_map.mp hmem
  exact ⟨id, hid, h.printed id hid, fun hcached => hnone id hid ((h.isCached_iff hid).mp hcached)⟩

theorem not_cacheIndependent_partly (h : Existing r stats ids)
    (hcache : CachedCorrectly cache stats ids) (hclient : ReturnsRows getByIdsAsync r stats ids)
    (hhit : ∃ id ∈ ids, isHit cache stats id) (hmiss : ∃ id ∈ ids, ¬ isHit cache stats id) :
    ¬ CacheIndependent service getByIdsAsync cache ids := by
  intro hindependent
  obtain ⟨⟨urls, _, _, hurls, _⟩, _⟩ := hindependent
  exact not_returns_partly service h hcache hclient hhit hmiss ⟨urls, hurls⟩

/-- **When the cache changes nothing.** -/
theorem cacheIndependent_iff (h : Existing r stats ids) (hcache : CachedCorrectly cache stats ids)
    (hclient : ReturnsRows getByIdsAsync r stats ids) :
    CacheIndependent service getByIdsAsync cache ids ↔
      ids ≠ [] ∧ ((∀ id ∈ ids, IsCached cache id) ∨ ∀ id ∈ ids, ¬ IsCached cache id) := by
  have hcached : ∀ id ∈ ids, IsCached cache id ↔ isHit cache stats id := fun id hid =>
    h.isCached_iff hid
  constructor
  · intro hindependent
    constructor
    · intro hnil
      obtain ⟨⟨urls, _, _, hurls, _⟩, _⟩ := hindependent
      rw [hnil] at hurls
      cases hurls
    · by_contra hmixed
      push Not at hmixed
      obtain ⟨⟨id, hid, hmiss⟩, id', hid', hhit⟩ := hmixed
      exact not_cacheIndependent_partly service h hcache hclient
        ⟨id', hid', (hcached id' hid').mp hhit⟩ ⟨id, hid, mt (hcached id hid).mpr hmiss⟩ hindependent
  · rintro ⟨hne, hall | hnone⟩
    · exact cacheIndependent_of_hit service h hne hcache hclient fun id hid =>
        (hcached id hid).mp (hall id hid)
    · exact cacheIndependent_of_none service h hne hclient fun id hid =>
        mt (hcached id hid).mpr (hnone id hid)

end

/-! ## Two URLs -/

/-- A URL that was never viewed. -/
def neverViewed (shortId : String) : UrlStats :=
  ⟨shortId, "https://example.com", 0, .empty, .empty, .empty, .empty⟩

/-- The statistics of an id that can be printed. -/
def neverViewedStats (id : ShortId) : UrlStats :=
  match id.toString with
  | .ret shortId => neverViewed shortId
  | _ => neverViewed ""

/-- A backend that has a row for every id. -/
def neverViewedRows (_ : ℤ) (shortIds : List String) : Exec (List Grpc.UrlStats) :=
  .ret (shortIds.map fun shortId => (neverViewed shortId).serialize)

/-- A cache with these URLs. -/
def cacheOf (shortIds : List String) (key : String) : Option Json :=
  (shortIds.find? fun shortId => urlStatsKey shortId = key).map fun shortId =>
    urlStatsContract.serialize (neverViewed shortId).toObject

theorem neverViewedStats_eq {id : ShortId} {shortId : String} (h : id.toString = .ret shortId) :
    neverViewedStats id = neverViewed shortId := by
  rw [neverViewedStats, h]

theorem neverViewed_shortId (id : ShortId) :
    neverViewed (neverViewedStats id).shortId = neverViewedStats id := by
  unfold neverViewedStats
  split <;> rfl

theorem returnsRows_neverViewed (r : ℤ) (ids : List ShortId) :
    ReturnsRows neverViewedRows r neverViewedStats ids := by
  intro requested _ _ _
  refine ⟨requested, .refl _, ?_⟩
  rw [neverViewedRows, List.map_map]
  refine congrArg Exec.ret (List.map_congr_left fun id _ => ?_)
  exact congrArg UrlStats.serialize (neverViewed_shortId id)

/-- Such statistics come back from the cache as they are. -/
theorem cachedCorrectly_cacheOf (shortIds : List String) (ids : List ShortId) :
    CachedCorrectly (cacheOf shortIds) neverViewedStats ids := by
  intro id _ key json hkey hjson
  obtain ⟨printed, hprinted, rfl⟩ := Exec.map_eq_ret_iff.mp hkey
  obtain ⟨shortId, hfind, rfl⟩ := Option.map_eq_some_iff.mp hjson
  have heq : urlStatsKey shortId = urlStatsKey printed := by
    simpa using List.find?_some hfind
  obtain rfl := urlStatsKey_injective heq
  have hzero : IsInt32 0 := by decide
  refine ⟨(neverViewed shortId).cached, ?_, ?_⟩
  · apply Contract.read_write_converter
    exact fromCache_eq ⟨hzero, hzero, hzero, hzero, hzero⟩
  · rw [neverViewedStats_eq hprinted]
    exact .refl _

theorem toString_first : ShortId.toString ⟨1, 1⟩ = .ret "1LafLC9" := by decide +kernel

theorem toString_second : ShortId.toString ⟨1, 2⟩ = .ret "1LafLCa" := by decide +kernel

theorem existing_two : Existing 1 neverViewedStats [⟨1, 1⟩, ⟨1, 2⟩] := by
  refine ⟨by decide, by decide, by decide, by decide, ?_⟩
  intro id hid
  rcases List.mem_pair.mp hid with rfl | rfl
  · rw [neverViewedStats_eq toString_first]
    exact toString_first
  · rw [neverViewedStats_eq toString_second]
    exact toString_second

theorem cacheIndependent_bothCached :
    CacheIndependent ⟨"http", "localhost"⟩ neverViewedRows (cacheOf ["1LafLC9", "1LafLCa"])
      [⟨1, 1⟩, ⟨1, 2⟩] := by
  refine (cacheIndependent_iff _ existing_two (cachedCorrectly_cacheOf _ _)
    (returnsRows_neverViewed _ _)).mpr ⟨List.cons_ne_nil _ _, .inl ?_⟩
  intro id hid
  rcases List.mem_pair.mp hid with rfl | rfl
  · exact ⟨_, congrArg (urlStatsKey <$> ·) toString_first, rfl⟩
  · exact ⟨_, congrArg (urlStatsKey <$> ·) toString_second, rfl⟩

/-- With one of two URLs in the cache the other cannot be read. -/
theorem not_cacheIndependent_oneCached :
    Existing 1 neverViewedStats [⟨1, 1⟩, ⟨1, 2⟩] ∧
      CachedCorrectly (cacheOf ["1LafLC9"]) neverViewedStats [⟨1, 1⟩, ⟨1, 2⟩] ∧
      ReturnsRows neverViewedRows 1 neverViewedStats [⟨1, 1⟩, ⟨1, 2⟩] ∧
      ¬ CacheIndependent ⟨"http", "localhost"⟩ neverViewedRows (cacheOf ["1LafLC9"])
        [⟨1, 1⟩, ⟨1, 2⟩] := by
  have hcache := cachedCorrectly_cacheOf ["1LafLC9"] [⟨1, 1⟩, ⟨1, 2⟩]
  have hclient := returnsRows_neverViewed 1 [⟨1, 1⟩, ⟨1, 2⟩]
  refine ⟨existing_two, hcache, hclient, not_cacheIndependent_partly _ existing_two hcache hclient
    ⟨⟨1, 1⟩, by decide, ?_⟩ ⟨⟨1, 2⟩, by decide, ?_⟩⟩
  · rw [isHit, neverViewedStats_eq toString_first]
    rfl
  · rw [isHit, neverViewedStats_eq toString_second]
    exact Bool.false_ne_true

end Shortener.Urls.Batch
