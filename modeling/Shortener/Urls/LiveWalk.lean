import Shortener.Common.LiveWalk
import Shortener.Urls.KeysetWalk

/-!
# Walking while links change

`UrlRepository.GetByUserId` called with exact cursors, with any statements between the calls:
each call reads a table of its own.

* `liveWalk_isWalk`: the calls are a walk of the library.
* `liveWalk_reaches`: a link that the user has at every call and that does not move forward in
  the listing is not missed.
-/

namespace Shortener.Urls

open Shortener.Common Shortener.DotNet Shortener.Stats

/-- The calls of `GetByUserId`, each on the table as it is then. -/
def liveWalk (userId limit : ℤ) (latestFirst : Bool) :
    List UrlTable → Option (ℤ × ℤ) → Exec (List Url)
  | [], _ => .diverge
  | table :: later, cursor => do
    match ← table.getByUserId userId limit cursor latestFirst with
    | none => return []
    | some urls =>
      let rest ← liveWalk userId limit latestFirst later (exactCursor urls)
      return urls ++ rest

/-- `UpdatedAt` has not moved a link towards the pages that were read: the newest first it is
    not later than before, the oldest first not earlier. -/
def StaysAhead (latestFirst : Bool) (url url' : Url) : Prop :=
  if latestFirst then url'.updatedAt ≤ url.updatedAt else url.updatedAt ≤ url'.updatedAt

section

variable {userId limit : ℤ} {latestFirst : Bool} {tables : List UrlTable} {urls : List Url}

/-- The calls are a walk of the library. -/
theorem liveWalk_isWalk (hlimit : 1 ≤ limit) {cursor : Option (ℤ × ℤ)}
    (h : liveWalk userId limit latestFirst tables cursor = .ret urls) :
    LiveWalk (rowPlace latestFirst) Url.id limit.toNat
      (cursor.map fun c => place latestFirst c.1 c.2)
      (tables.map fun table => table.listing userId latestFirst) urls := by
  induction tables generalizing cursor urls with
  | nil => cases h
  | cons table later ih =>
    have hiff : table.fetched userId latestFirst limit.toNat cursor = [] ↔
        table.beyond userId latestFirst cursor = [] := UrlTable.fetched_eq_nil_iff (by omega)
    rw [liveWalk, UrlTable.getByUserId_eq table userId (by omega), Exec.ret_bind] at h
    rcases (table.fetched userId latestFirst limit.toNat cursor).eq_nil_or_concat with
      hnil | ⟨page, b, hpage⟩
    · rw [hnil] at h
      obtain rfl := Exec.ret.inj h
      exact .last (hiff.mp hnil)
    · rw [List.concat_eq_append] at hpage
      rw [hpage, if_neg (by simp)] at h
      obtain ⟨rest, hrest, h⟩ := Exec.bind_eq_ret_iff.mp h
      obtain rfl := Exec.ret.inj h
      rw [exactCursor, List.getLast?_concat, Option.map_some] at hrest
      rw [List.append_assoc]
      exact .more hpage (ih hrest)

/-- The row of an id in a listing. -/
theorem mem_listing_iff {table : UrlTable} {url : Url} :
    url ∈ table.listing userId latestFirst ↔ url ∈ table.ofUser userId :=
  (table.listing_perm userId latestFirst).mem_iff

instance (latestFirst : Bool) (url url' : Url) : Decidable (StaysAhead latestFirst url url') := by
  unfold StaysAhead
  infer_instance

theorem rowPlace_le_of_staysAhead {a b : Url} (hid : a.id = b.id)
    (h : StaysAhead latestFirst a b) : rowPlace latestFirst a ≤ rowPlace latestFirst b := by
  cases latestFirst
  · simp only [StaysAhead, Bool.false_eq_true, if_false] at h
    simp only [rowPlace, place, Bool.false_eq_true, if_false, Prod.Lex.toLex_le_toLex]
    omega
  · simp only [StaysAhead, if_true] at h
    simp only [rowPlace, place, if_true, Prod.Lex.toLex_le_toLex]
    omega

/-- **No link that stays ahead is missed.** Whatever else changes between the calls. -/
theorem liveWalk_reaches (hlimit : 1 ≤ limit)
    (h : liveWalk userId limit latestFirst tables none = .ret urls) {id : ℤ}
    (hthere : ∀ table ∈ tables, ∃ url ∈ table.ofUser userId, url.id = id)
    (hmoves : tables.Pairwise fun table table' => ∀ url ∈ table.ofUser userId,
      ∀ url' ∈ table'.ofUser userId, url.id = id → url'.id = id → StaysAhead latestFirst url url') :
    ∃ url ∈ urls, url.id = id := by
  have hwalk := liveWalk_isWalk hlimit h
  refine hwalk.reached (p := fun url => url.id = id) ?_ ?_ ?_ (fun _ _ _ _ _ _ hc => by cases hc)
  · intro rows hrows
    obtain ⟨table, -, rfl⟩ := List.mem_map.mp hrows
    exact table.listing_sorted userId latestFirst
  · intro rows hrows
    obtain ⟨table, htable, rfl⟩ := List.mem_map.mp hrows
    obtain ⟨url, hurl, hid⟩ := hthere table htable
    exact ⟨url, mem_listing_iff.mpr hurl, hid⟩
  · rw [List.pairwise_map]
    refine hmoves.imp fun hahead url hurl url' hurl' hid hid' => ?_
    exact rowPlace_le_of_staysAhead (hid.trans hid'.symm)
      (hahead url (mem_listing_iff.mp hurl) url' (mem_listing_iff.mp hurl') hid hid')

end

/-! ## A visit between two pages -/

/-- The rows of `threeUrls` after a visit of URL 2 at the instant 5000. -/
def afterVisit : UrlTable where
  rows := [⟨1, "https://example.com/1", 7, 0, [], 3000⟩, ⟨2, "https://example.com/2", 7, 1, [], 5000⟩,
    ⟨3, "https://example.com/3", 7, 0, [], 2000⟩]
  nodup_id := by decide
  isInt32_id := by
    intro url hurl
    fin_cases hurl <;> decide
  isInstant_updatedAt := by
    intro url hurl
    fin_cases hurl <;> decide

theorem listing_afterVisit :
    afterVisit.listing 7 false = [⟨3, "https://example.com/3", 7, 0, [], 2000⟩,
      ⟨1, "https://example.com/1", 7, 0, [], 3000⟩, ⟨2, "https://example.com/2", 7, 1, [], 5000⟩] := by
  refine sortBy_eq (by decide) ?_
  exact (List.Perm.swap _ _ _).trans (List.Perm.cons _ (List.Perm.swap _ _ _))

theorem listing_threeUrls :
    threeUrls.listing 7 false = [⟨2, "https://example.com/2", 7, 0, [], 1000⟩,
      ⟨3, "https://example.com/3", 7, 0, [], 2000⟩, ⟨1, "https://example.com/1", 7, 0, [], 3000⟩] := by
  refine sortBy_eq (by decide) ?_
  exact (List.Perm.cons _ (List.Perm.swap _ _ _)).trans (List.Perm.swap _ _ _)

/-- Two at a time, the oldest first: URL 2 comes again, with its new visit. -/
theorem liveWalk_visit :
    liveWalk 7 2 false [threeUrls, afterVisit, afterVisit] none =
      .ret [⟨2, "https://example.com/2", 7, 0, [], 1000⟩, ⟨3, "https://example.com/3", 7, 0, [], 2000⟩,
        ⟨1, "https://example.com/1", 7, 0, [], 3000⟩, ⟨2, "https://example.com/2", 7, 1, [], 5000⟩] := by
  have htoNat : (2 : ℤ).toNat = 2 := rfl
  have hfirst : threeUrls.fetched 7 false 2 none =
      [⟨2, "https://example.com/2", 7, 0, [], 1000⟩, ⟨3, "https://example.com/3", 7, 0, [], 2000⟩] := by
    rw [UrlTable.fetched, fetch, listing_threeUrls]
    exact sortBy_eq (by decide) (List.Perm.refl _)
  have hsecond : afterVisit.fetched 7 false 2 (some (3, 2000)) =
      [⟨1, "https://example.com/1", 7, 0, [], 3000⟩, ⟨2, "https://example.com/2", 7, 1, [], 5000⟩] := by
    rw [UrlTable.fetched, fetch, listing_afterVisit]
    exact sortBy_eq (by decide) (List.Perm.refl _)
  have hlast : afterVisit.fetched 7 false 2 (some (2, 5000)) = [] := by
    rw [UrlTable.fetched, fetch, listing_afterVisit]
    exact sortBy_eq (by decide) (List.Perm.refl _)
  simp [liveWalk, UrlTable.getByUserId_eq, htoNat, hfirst, hsecond, hlast, exactCursor]

/-- URL 2 moves to the end of the listing while it is read, and is not missed. -/
theorem liveWalk_reaches_visit :
    ∃ urls, liveWalk 7 2 false [threeUrls, afterVisit, afterVisit] none = .ret urls ∧
      urls.length = 4 ∧ ∃ url ∈ urls, url.id = 2 := by
  refine ⟨_, liveWalk_visit, rfl, liveWalk_reaches (by decide) liveWalk_visit ?_ ?_⟩
  · intro table htable
    fin_cases htable <;> decide
  · decide

end Shortener.Urls
