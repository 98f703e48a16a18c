import Shortener.Urls.Batch

/-!
# Statistics of several URLs at once

`UrlDataLoader.LoadBatchAsync` (`Shortener.GraphQLFrontend/GraphQL/UrlDataLoader.cs`, lines
16–48), with `GetById` of the frontends (`Shortener.FrontendShared/Services/UrlService.cs`, lines
61–82) and `ShortUrlValidator`. The keys are short URLs as the client has written them. One key
is answered under its own spelling, several are answered under the short URLs that the service
prints.

* `loadBatch_one`: one key is answered.
* `loadBatch_answers_iff`: several keys are all answered exactly if each is spelled like the
  service spells it.
-/

namespace Shortener.Urls.Batch

open Shortener.Codec Shortener.DotNet Shortener.Stats

/-! ## The loader -/

/-- `ShortUrlValidator`. -/
def shortUrlValidator (tryCreate : String → Option Uri) (shortUrl : String) : Bool :=
  notEmpty shortUrl &&
    match tryParseUrl tryCreate shortUrl with
    | .ret (some _) => true
    | _ => false

/-- `GetById`; `getByIdAsync` is the client of a shard. -/
def getById (service : ShortUrlService) (getByIdAsync : ℤ → String → Exec Grpc.UrlStats)
    (cache : String → Option Json) (id : ShortId) : Exec Dtos.UrlStats := do
  let key ← getUrlStatsKey id
  match ← readValue urlStatsContract.converter.read (cache key) with
  | some cachedUrl => Dtos.UrlStats.ofStats service cachedUrl
  | none => do
    let shortId ← id.toString
    let reply ← getByIdAsync id.range shortId
    let url ← UrlStats.ofGrpc reply
    Dtos.UrlStats.ofStats service url.toObject

/-- What the loader calls: the parser of URIs, the clients of the shards and the cache. -/
structure Loader where
  tryCreate : String → Option Uri
  service : ShortUrlService
  getByIdAsync : ℤ → String → Exec Grpc.UrlStats
  getByIdsAsync : ℤ → List String → Exec (List Grpc.UrlStats)
  cache : String → Option Json

variable (loader : Loader)

/-- `ShortIdUtils.ParseUrl`. -/
def Loader.parse (key : String) : Exec ShortId := parseUrl loader.tryCreate key

/-- `LoadBatchAsync` for a user of shard `shardId`. -/
def Loader.loadBatchAsync (shardId : ℤ) (keys : List String) : Exec ByShortUrl := do
  let forbidden ← keys.anyM fun key => do
    let shortId ← loader.parse key
    return decide (shortId.range ≠ shardId)
  if forbidden then .throw (.graphQL "Forbidden")
  else
    match keys with
    | [shortUrl] => do
      let shortId ← loader.parse shortUrl
      let url ← getById loader.service loader.getByIdAsync loader.cache shortId
      Dictionary.add ∅ shortUrl url
    | _ => do
      let ids ← keys.mapM loader.parse
      let urls ← (getByIds loader.service loader.getByIdsAsync loader.cache ids).outcome
      Dictionary.ofEntries urls.entries

/-! ## Keys -/

/-- Distinct keys that pass the validator and name URLs of shard `r`, which `Convert` turns into
    `stats`. -/
structure Keys (r : ℤ) (stats : ShortId → UrlStats) (keys : List String) : Prop where
  shard : IsShardId r
  nonempty : keys ≠ []
  nodup : keys.Nodup
  valid : ∀ key ∈ keys, shortUrlValidator loader.tryCreate key = true
  existing : ∀ key ∈ keys, ∀ id, loader.parse key = .ret id →
    id.range = r ∧ id.toString = .ret (stats id).shortId

/-- Nothing is cached, and the backend has the URLs. -/
structure Loader.Works (r : ℤ) (stats : ShortId → UrlStats) (keys : List String) : Prop where
  cache : ∀ key, loader.cache key = none
  getById : ∀ key ∈ keys, ∀ id, loader.parse key = .ret id →
    loader.getByIdAsync r (stats id).shortId = .ret (stats id).serialize
  getByIds : ∀ ids : List ShortId, (∀ id ∈ ids, ∃ key ∈ keys, loader.parse key = .ret id) →
    ReturnsRows loader.getByIdsAsync r stats ids

/-- The dictionary has the statistics of each key. -/
def Loader.Answers (stats : ShortId → UrlStats) (keys : List String) (reply : Exec ByShortUrl) :
    Prop :=
  ∃ dict, reply = .ret dict ∧ ∀ key ∈ keys, ∀ id, loader.parse key = .ret id →
    ∃ url, dict.lookup key = some url ∧
      url.Same (.at (loader.service.link (stats id).shortId) (stats id).toObject)

/-- The key is the short URL that the service prints for its id. -/
def Loader.IsOwn (key : String) : Prop :=
  ∀ id, loader.parse key = .ret id → loader.service.getById id = .ret key

variable {loader : Loader} {r : ℤ} {stats : ShortId → UrlStats} {keys : List String} {key : String}

theorem parse_of_valid (h : shortUrlValidator loader.tryCreate key = true) :
    (loader.parse key).Returns := by
  unfold shortUrlValidator tryParseUrl at h
  unfold Loader.parse parseUrl
  cases hpath : shortIdOfUrl loader.tryCreate key with
  | none => simp [hpath] at h
  | some path =>
    simp only [hpath] at h ⊢
    cases hparse : parseId path with
    | ret id => exact ⟨id, rfl⟩
    | throw e =>
      rw [hparse, show some <$> (Exec.throw e : Exec ShortId) = .throw e from rfl] at h
      simp at h
    | diverge =>
      rw [hparse, show some <$> (Exec.diverge : Exec ShortId) = .diverge from rfl] at h
      simp at h

/-- The id of a key. -/
def Loader.idOf (loader : Loader) (key : String) : ShortId := (loader.parse key).getD ⟨0, 0⟩

theorem isInt32_index_of_parseId {s : String} {id : ShortId} (h : parseId s = .ret id) :
    IsInt32 id.index := by
  unfold parseId at h
  split_ifs at h
  obtain ⟨base10Id, -, hid⟩ := Exec.bind_eq_ret_iff.mp h
  obtain rfl := Exec.ret.inj hid
  exact isInt32_toInt32 _

theorem isInt32_index_of_parse {id : ShortId} (h : loader.parse key = .ret id) :
    IsInt32 id.index := by
  unfold Loader.parse parseUrl at h
  split at h
  · exact isInt32_index_of_parseId h
  · cases h

namespace Keys

variable (h : Keys loader r stats keys)

include h

theorem parse (hkey : key ∈ keys) : loader.parse key = .ret (loader.idOf key) :=
  (parse_of_valid (h.valid key hkey)).eq_getD _

theorem printed (hkey : key ∈ keys) :
    (loader.idOf key).toString = .ret (stats (loader.idOf key)).shortId :=
  (h.existing key hkey _ (h.parse hkey)).2

theorem getById_service (hkey : key ∈ keys) :
    loader.service.getById (loader.idOf key) =
      .ret (loader.service.link (stats (loader.idOf key)).shortId) :=
  loader.service.getById_eq (h.printed hkey)

theorem mapM_parse : keys.mapM loader.parse = .ret (keys.map loader.idOf) := by
  rw [Exec.mapM_eq_ret_iff, List.forall₂_map_right_iff]
  exact List.forall₂_same.mpr fun key hkey => h.parse hkey

/-- The ids, if they are distinct. -/
theorem toExisting (hnodup : (keys.map loader.idOf).Nodup) :
    Existing r stats (keys.map loader.idOf) := by
  refine ⟨h.shard, hnodup, ?_, ?_, ?_⟩
  · intro id hid
    obtain ⟨key, hkey, rfl⟩ := List.mem_map.mp hid
    exact (h.existing key hkey _ (h.parse hkey)).1
  · intro id hid
    obtain ⟨key, hkey, rfl⟩ := List.mem_map.mp hid
    exact isInt32_index_of_parse (h.parse hkey)
  · intro id hid
    obtain ⟨key, hkey, rfl⟩ := List.mem_map.mp hid
    exact h.printed hkey

/-- The keys belong to the shard of the user. -/
theorem not_forbidden {part : List String} (hpart : part ⊆ keys) :
    (part.anyM fun key => do
      let shortId ← loader.parse key
      return decide (shortId.range ≠ r)) = .ret false := by
  induction part with
  | nil => rfl
  | cons key part ih =>
    obtain ⟨hkey, hrest⟩ := List.cons_subset.mp hpart
    have hrange := (h.existing key hkey _ (h.parse hkey)).1
    rw [List.anyM, h.parse hkey, Exec.ret_bind, Exec.pure_eq, Exec.ret_bind, hrange]
    simp only [ne_eq, not_true_eq_false, decide_false]
    exact ih hrest

theorem isOwn_iff (hkey : key ∈ keys) :
    loader.IsOwn key ↔ loader.service.link (stats (loader.idOf key)).shortId = key := by
  constructor
  · intro hown
    have hget := hown _ (h.parse hkey)
    rw [h.getById_service hkey] at hget
    exact Exec.ret.inj hget
  · intro hlink id hid
    obtain rfl := Exec.ret.inj ((h.parse hkey).symm.trans hid)
    rw [h.getById_service hkey, hlink]

end Keys

/-! ## One key -/

theorem getById_eq (hworks : loader.Works r stats keys) (h : Keys loader r stats keys)
    (hkey : key ∈ keys) :
    getById loader.service loader.getByIdAsync loader.cache (loader.idOf key) =
      .ret (.at (loader.service.link (stats (loader.idOf key)).shortId)
        (stats (loader.idOf key)).copied.toObject) := by
  have hprinted := h.printed hkey
  have hrange := (h.existing key hkey _ (h.parse hkey)).1
  have hcode := (ShortId.isCode_of_toString hprinted).1
  have hlink : loader.service.get (stats (loader.idOf key)).copied.toObject.shortId =
      .ret (loader.service.link (stats (loader.idOf key)).shortId) :=
    loader.service.get_code hcode
  rw [getById, getUrlStatsKey, hprinted,
    show urlStatsKey <$> (Exec.ret _ : Exec String) = .ret _ from rfl,
    Exec.ret_bind, hworks.cache]
  simp only [readValue, Option.elim_none, Exec.ret_bind, hrange,
    hworks.getById key hkey _ (h.parse hkey), UrlStats.ofGrpc_serialize, Dtos.UrlStats.ofStats, hlink]
  rfl

/-- **One key is answered**, whatever its spelling. -/
theorem loadBatch_one (hworks : loader.Works r stats [key]) (h : Keys loader r stats [key]) :
    loader.Answers stats [key] (loader.loadBatchAsync r [key]) := by
  have hkey : key ∈ [key] := List.mem_singleton_self key
  have hadd : ∀ url, Dictionary.add (∅ : ByShortUrl) key url = .ret (AList.insert key url ∅) :=
    fun url => Dictionary.add_eq_ret_iff.mpr ⟨AList.notMem_empty key, rfl⟩
  refine ⟨AList.insert key (.at (loader.service.link (stats (loader.idOf key)).shortId)
    (stats (loader.idOf key)).copied.toObject) ∅, ?_, ?_⟩
  · rw [Loader.loadBatchAsync, h.not_forbidden (List.Subset.refl _), Exec.ret_bind]
    simp only [Bool.false_eq_true, if_false]
    rw [h.parse hkey, Exec.ret_bind, getById_eq hworks h hkey, Exec.ret_bind]
    exact hadd _
  · intro key' hkey' id hid
    obtain rfl := List.mem_singleton.mp hkey'
    obtain rfl := Exec.ret.inj ((h.parse hkey).symm.trans hid)
    exact ⟨_, AList.lookup_insert _, at_same (stats _).copied_same _⟩

/-! ## Several keys -/

theorem loadBatch_many (h : Keys loader r stats keys) (hmany : keys.length ≠ 1) :
    loader.loadBatchAsync r keys =
      (getByIds loader.service loader.getByIdsAsync loader.cache (keys.map loader.idOf)).outcome >>=
        fun urls => Dictionary.ofEntries urls.entries := by
  unfold Loader.loadBatchAsync
  rw [h.not_forbidden (List.Subset.refl _), Exec.ret_bind]
  simp only [Bool.false_eq_true, if_false]
  split
  · exact absurd rfl hmany
  · rw [h.mapM_parse, Exec.ret_bind]

/-- An id that comes twice is read from the cache twice, which throws. -/
theorem not_returns_of_not_nodup (hcache : ∀ key, loader.cache key = none) {ids : List ShortId}
    (hprinted : ∀ id ∈ ids, id.toString = .ret (stats id).shortId) (hdup : ¬ ids.Nodup) :
    ¬ (getByIds loader.service loader.getByIdsAsync loader.cache ids).outcome.Returns := by
  have hlook : ¬ (lookUp loader.service loader.cache ids).Returns := by
    intro hreturns
    rw [lookUp, mapM_getUrlStatsKey_of_printed hprinted, Exec.ret_bind] at hreturns
    obtain ⟨idsToQuery, -, hreturns⟩ := Exec.returns_bind.mp hreturns
    obtain ⟨cachedUrls, hget, -⟩ := Exec.returns_bind.mp hreturns
    obtain ⟨cachedData, hloop, -⟩ := Exec.bind_eq_ret_iff.mp hget
    have hentries : (ids.map fun id => urlStatsKey (stats id).shortId).foldlM
        (fun (cachedData : Dictionary String (Option UrlStatsObject)) key =>
          cachedData.add key none) ∅ = .ret cachedData := by
      rw [← hloop]
      apply Exec.foldlM_congr
      intro key _ cachedData
      rw [hcache]
      rfl
    have hnodup : (ids.map fun id => urlStatsKey (stats id).shortId).Nodup := by
      rw [← List.foldlM_map (f := fun key => (⟨key, none⟩ : Σ _ : String, Option UrlStatsObject))
        (g := fun (d : Dictionary String (Option UrlStatsObject)) entry => d.add entry.1 entry.2)]
        at hentries
      have hkeys := Dictionary.foldlM_add_returns_iff.mp ⟨_, hentries⟩
      rw [show (∅ : Dictionary String (Option UrlStatsObject)).entries = [] from rfl,
        List.append_nil, List.NodupKeys, List.keys, List.map_reverse, List.nodup_reverse,
        List.map_map, List.map_map] at hkeys
      exact hkeys
    exact hdup (List.Nodup.of_map _ hnodup)
  unfold getByIds
  split
  · exact Exec.not_returns_throw _
  · split_ifs
    · exact Exec.not_returns_throw _
    · split
      · exact Exec.not_returns_throw _
      · exact Exec.not_returns_diverge
      · rename_i hret
        exact absurd ⟨_, hret⟩ hlook

/-- The entries of the result for distinct ids. -/
theorem loadBatch_nodup (hworks : loader.Works r stats keys) (h : Keys loader r stats keys)
    (hmany : keys.length ≠ 1) (hnodup : (keys.map loader.idOf).Nodup) :
    ∃ dict, loader.loadBatchAsync r keys = .ret dict ∧
      dict.entries.Perm ((keys.map loader.idOf).map fun id =>
        urlEntry loader.service (stats id).copied) := by
  have hexisting := h.toExisting hnodup
  have hclient : ReturnsRows loader.getByIdsAsync r stats (keys.map loader.idOf) := by
    apply hworks.getByIds
    intro id hid
    obtain ⟨key, hkey, rfl⟩ := List.mem_map.mp hid
    exact ⟨key, hkey, h.parse hkey⟩
  have hnone : ∀ id ∈ keys.map loader.idOf, ¬ isHit loader.cache stats id := by
    intro id _
    simp [isHit, hworks.cache]
  have hne : keys.map loader.idOf ≠ [] := by simpa using h.nonempty
  obtain ⟨urls, hget, hentries⟩ := getByIds_none loader.service hexisting hne hclient hnone
  refine ⟨urls.reversed, ?_, (List.reverse_perm _).trans hentries⟩
  rw [loadBatch_many h hmany, hget, Exec.ret_bind, Dictionary.ofEntries_entries]

/-- Spelled like the service spells them, keys have distinct ids. -/
theorem nodup_of_isOwn (h : Keys loader r stats keys) (hown : ∀ key ∈ keys, loader.IsOwn key) :
    (keys.map loader.idOf).Nodup := by
  apply h.nodup.map_on
  intro key hkey key' hkey' heq
  rw [← (h.isOwn_iff hkey).mp (hown key hkey), ← (h.isOwn_iff hkey').mp (hown key' hkey'), heq]

theorem answers_of_isOwn (hworks : loader.Works r stats keys) (h : Keys loader r stats keys)
    (hmany : keys.length ≠ 1) (hown : ∀ key ∈ keys, loader.IsOwn key) :
    loader.Answers stats keys (loader.loadBatchAsync r keys) := by
  obtain ⟨dict, hload, hentries⟩ := loadBatch_nodup hworks h hmany (nodup_of_isOwn h hown)
  refine ⟨dict, hload, ?_⟩
  intro key hkey id hid
  obtain rfl := Exec.ret.inj ((h.parse hkey).symm.trans hid)
  have hentry : urlEntry loader.service (stats (loader.idOf key)).copied ∈ dict.entries :=
    hentries.mem_iff.mpr (List.mem_map_of_mem (List.mem_map_of_mem hkey))
  have hlink : loader.service.link (stats (loader.idOf key)).shortId = key :=
    (h.isOwn_iff hkey).mp (hown key hkey)
  have hlookup := Dictionary.lookup_entry hentry
  rw [show (urlEntry loader.service (stats (loader.idOf key)).copied).1 = key from hlink] at hlookup
  exact ⟨_, hlookup, at_same (stats _).copied_same _⟩

theorem isOwn_of_answers (hworks : loader.Works r stats keys) (h : Keys loader r stats keys)
    (hmany : keys.length ≠ 1) (hanswers : loader.Answers stats keys (loader.loadBatchAsync r keys)) :
    ∀ key ∈ keys, loader.IsOwn key := by
  obtain ⟨dict, hload, hall⟩ := hanswers
  have hnodup : (keys.map loader.idOf).Nodup := by
    by_contra hdup
    have hprinted : ∀ id ∈ keys.map loader.idOf, id.toString = .ret (stats id).shortId := by
      intro id hid
      obtain ⟨key, hkey, rfl⟩ := List.mem_map.mp hid
      exact h.printed hkey
    rw [loadBatch_many h hmany] at hload
    obtain ⟨urls, hurls, -⟩ := Exec.bind_eq_ret_iff.mp hload
    exact not_returns_of_not_nodup hworks.cache hprinted hdup ⟨urls, hurls⟩
  obtain ⟨dict', hload', hentries⟩ := loadBatch_nodup hworks h hmany hnodup
  obtain rfl := Exec.ret.inj (hload.symm.trans hload')
  intro key hkey
  -- the entry of the key is that of a URL, whose statistics say which one
  obtain ⟨url, hurl, hsame⟩ := hall key hkey _ (h.parse hkey)
  obtain ⟨id, -, hid⟩ := List.mem_map.mp (hentries.subset (AList.mem_lookup_iff.mp hurl))
  have hfst : loader.service.link (stats id).shortId = key := congrArg Sigma.fst hid
  have hshortUrl : url.shortUrl = key := by
    obtain ⟨-, heq⟩ := Sigma.mk.inj_iff.mp hid
    rw [← eq_of_heq heq, ← hfst]
    rfl
  exact (h.isOwn_iff hkey).mpr (hsame.shortUrl.symm.trans hshortUrl)

theorem Keys.single (h : Keys loader r stats keys) (hkey : key ∈ keys) :
    Keys loader r stats [key] := by
  have hsub : ∀ key' ∈ [key], key' ∈ keys := by
    intro key' hkey'
    obtain rfl := List.mem_singleton.mp hkey'
    exact hkey
  exact ⟨h.shard, List.cons_ne_nil _ _, List.nodup_singleton _, fun key' hkey' =>
    h.valid key' (hsub key' hkey'), fun key' hkey' => h.existing key' (hsub key' hkey')⟩

theorem Loader.Works.single (hworks : loader.Works r stats keys) (hkey : key ∈ keys) :
    loader.Works r stats [key] := by
  have hsub : ∀ key' ∈ [key], key' ∈ keys := by
    intro key' hkey'
    obtain rfl := List.mem_singleton.mp hkey'
    exact hkey
  refine ⟨hworks.cache, fun key' hkey' => hworks.getById key' (hsub key' hkey'), ?_⟩
  intro ids hids
  apply hworks.getByIds
  intro id hid
  obtain ⟨key', hkey', hparse⟩ := hids id hid
  exact ⟨key', hsub key' hkey', hparse⟩

/-- **The loader answers all keys exactly if there is one or each is spelled like the service
    spells it.** For all lists of distinct keys; each key alone is always answered. -/
theorem loadBatch_answers_iff (hworks : loader.Works r stats keys) (h : Keys loader r stats keys) :
    (loader.Answers stats keys (loader.loadBatchAsync r keys) ↔
      keys.length = 1 ∨ ∀ key ∈ keys, loader.IsOwn key) ∧
    ∀ key ∈ keys, loader.Answers stats [key] (loader.loadBatchAsync r [key]) := by
  have halone : ∀ key ∈ keys, loader.Answers stats [key] (loader.loadBatchAsync r [key]) :=
    fun key hkey => loadBatch_one (hworks.single hkey) (h.single hkey)
  refine ⟨?_, halone⟩
  constructor
  · intro hanswers
    by_contra hnot
    push Not at hnot
    obtain ⟨hmany, key, hkey, hother⟩ := hnot
    exact hother (isOwn_of_answers hworks h hmany hanswers key hkey)
  · rintro (hone | hown)
    · obtain ⟨key, rfl⟩ := List.length_eq_one_iff.mp hone
      exact halone key (List.mem_singleton_self key)
    · by_cases hmany : keys.length = 1
      · obtain ⟨key, rfl⟩ := List.length_eq_one_iff.mp hmany
        exact halone key (List.mem_singleton_self key)
      · exact answers_of_isOwn hworks h hmany hown

/-! ## Two spellings -/

/-- `Uri.TryCreate` on the URLs of `localhost`. -/
def localUri (s : String) : Option Uri :=
  if "http://localhost".toList.isPrefixOf s.toList then
    some ⟨"http", "localhost", String.ofList (s.toList.drop 16)⟩
  else if "https://localhost".toList.isPrefixOf s.toList then
    some ⟨"https", "localhost", String.ofList (s.toList.drop 17)⟩
  else none

/-- A service for `http://localhost` with an empty cache. -/
def localLoader : Loader where
  tryCreate := localUri
  service := ⟨"http", "localhost"⟩
  getByIdAsync := fun _ shortId => .ret (neverViewed shortId).serialize
  getByIdsAsync := neverViewedRows
  cache := fun _ => none

theorem works_localLoader (r : ℤ) (keys : List String) :
    localLoader.Works r neverViewedStats keys := by
  refine ⟨fun _ => rfl, ?_, fun ids _ => returnsRows_neverViewed r ids⟩
  intro key _ id _
  exact congrArg (fun url => Exec.ret url.serialize) (neverViewed_shortId id)

/-- The keys are spelled in some way and name the first two URLs of the shard. -/
theorem keys_localLoader {first second : String} (hne : first ≠ second)
    (hvalid : shortUrlValidator localUri first = true ∧ shortUrlValidator localUri second = true)
    (hparse : localLoader.parse first = .ret ⟨1, 1⟩ ∧ localLoader.parse second = .ret ⟨1, 2⟩) :
    Keys localLoader 1 neverViewedStats [first, second] := by
  refine ⟨by decide, List.cons_ne_nil _ _, by simpa using hne, ?_, ?_⟩
  · intro key hkey
    rcases List.mem_pair.mp hkey with rfl | rfl
    · exact hvalid.1
    · exact hvalid.2
  · intro key hkey id hid
    rcases List.mem_pair.mp hkey with rfl | rfl
    · obtain rfl := Exec.ret.inj (hparse.1.symm.trans hid)
      rw [neverViewedStats_eq toString_first]
      exact ⟨rfl, toString_first⟩
    · obtain rfl := Exec.ret.inj (hparse.2.symm.trans hid)
      rw [neverViewedStats_eq toString_second]
      exact ⟨rfl, toString_second⟩

theorem parse_second : localLoader.parse "http://localhost/1LafLCa" = .ret ⟨1, 2⟩ := by
  decide +kernel

theorem loadBatch_answers_own :
    localLoader.Answers neverViewedStats ["http://localhost/1LafLC9", "http://localhost/1LafLCa"]
      (localLoader.loadBatchAsync 1 ["http://localhost/1LafLC9", "http://localhost/1LafLCa"]) := by
  have hfirst : localLoader.parse "http://localhost/1LafLC9" = .ret ⟨1, 1⟩ := by decide +kernel
  have hkeys := keys_localLoader (by decide) (by decide +kernel) ⟨hfirst, parse_second⟩
  refine (loadBatch_answers_iff (works_localLoader 1 _) hkeys).1.mpr (Or.inr ?_)
  intro key hkey id hid
  rcases List.mem_pair.mp hkey with rfl | rfl
  · obtain rfl := Exec.ret.inj (hfirst.symm.trans hid)
    exact localLoader.service.getById_eq toString_first
  · obtain rfl := Exec.ret.inj (parse_second.symm.trans hid)
    exact localLoader.service.getById_eq toString_second

/-- The first of two keys has another scheme: there is no entry for it. -/
theorem other_spelling_not_answered :
    Keys localLoader 1 neverViewedStats ["https://localhost/1LafLC9", "http://localhost/1LafLCa"] ∧
      localLoader.Works 1 neverViewedStats
        ["https://localhost/1LafLC9", "http://localhost/1LafLCa"] ∧
      ¬ localLoader.Answers neverViewedStats
        ["https://localhost/1LafLC9", "http://localhost/1LafLCa"]
        (localLoader.loadBatchAsync 1 ["https://localhost/1LafLC9", "http://localhost/1LafLCa"]) := by
  have hfirst : localLoader.parse "https://localhost/1LafLC9" = .ret ⟨1, 1⟩ := by decide +kernel
  have hkeys := keys_localLoader (by decide) (by decide +kernel) ⟨hfirst, parse_second⟩
  refine ⟨hkeys, works_localLoader 1 _, ?_⟩
  intro hanswers
  have hown := isOwn_of_answers (works_localLoader 1 _) hkeys (by decide) hanswers
    "https://localhost/1LafLC9" List.mem_cons_self _ hfirst
  rw [localLoader.service.getById_eq toString_first] at hown
  exact absurd (Exec.ret.inj hown) (by decide)

end Shortener.Urls.Batch
