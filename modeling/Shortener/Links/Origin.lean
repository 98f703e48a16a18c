import Shortener.Links.Owner

/-!
# Where links come from

* `row_origin`: a destination gets into a row by the last statement of a call.
* `Keyed.step`: an id is never given to a second row.
* `step_sameLink`: a row shows the same link until a call updates it.
* `fromOwner_step`: every row shows what its owner has asked for.
-/

namespace Shortener.Links

open Shortener.Common Shortener.DotNet Shortener.Codec

/-- The destination that a request is to store. -/
def Request.stores : Request → Option String
  | .create _ destinationUrl => some destinationUrl
  | .update _ _ destinationUrl => some destinationUrl
  | .delete _ _ => none

section

variable {ω : Type} {env : Globalization} {tryCreate : String → Option Uri} {s t : Shard ω}
  {e : Event ω} {db db' : Database}

theorem UrlRow.SameLink.trans {row row' row'' : UrlRow} (h : row.SameLink row')
    (h' : row'.SameLink row'') : row.SameLink row'' :=
  ⟨h'.id.trans h.id, h'.userId.trans h.userId, h'.domainId.trans h.domainId,
    h'.destinationUrl.trans h.destinationUrl⟩

theorem sameLink_incrementVisit {id : ℤ} {row : UrlRow} (h : row ∈ (db.incrementVisit id).urls) :
    ∃ row' ∈ db.urls, row'.SameLink row := by
  obtain ⟨row', hmem, rfl⟩ := List.mem_map.mp h
  refine ⟨row', hmem, ?_⟩
  split_ifs
  · exact ⟨rfl, rfl, rfl, rfl⟩
  · exact .refl row'

/-- A row after the last statement of a call was there before, or shows what the call stores. -/
theorem Call.execute_origin {call : Call ω} (h : call.execute db = some db') {row : UrlRow}
    (hrow : row ∈ db'.urls) :
    row ∈ db.urls ∨
      call.request.userId = row.userId ∧ call.request.stores = some row.destinationUrl := by
  unfold Call.execute at h
  split at h
  · rename_i userId destinationUrl domainId hrequest _
    obtain rfl := Option.some.inj h
    rcases List.mem_append.mp hrow with hrow | hrow
    · exact .inl hrow
    · obtain rfl := List.mem_singleton.mp hrow
      rw [hrequest]
      exact .inr ⟨rfl, rfl⟩
  · rename_i userId shortId destinationUrl domainId hrequest _
    split at h
    · obtain rfl := Option.some.inj h
      obtain ⟨row', hmem, rfl⟩ := List.mem_map.mp hrow
      split_ifs with hmatch
      · rw [hrequest]
        exact .inr ⟨hmatch.2.symm, rfl⟩
      · exact .inl hmem
    · cases h
  · split at h
    · obtain rfl := Option.some.inj h
      exact .inl (List.mem_filter.mp hrow).1
    · cases h
  · cases h

/-- A row shows the link it showed before, or what a call has just stored. -/
theorem row_origin (h : step env tryCreate s e = some t) {row : UrlRow}
    (hrow : row ∈ t.database.urls) :
    (∃ row' ∈ s.database.urls, row'.SameLink row) ∨
      ∃ i call, e = .execute i ∧ s.calls[i]? = some call ∧ call.request.userId = row.userId ∧
        call.request.stores = some row.destinationUrl := by
  cases e with
  | receive origin request =>
    obtain rfl := Option.some.inj h
    exact .inl ⟨row, hrow, .refl row⟩
  | getOrAdd i =>
    simp only [step] at h
    split at h
    · split at h
      · obtain rfl := Option.some.inj h
        rw [Database.urls_getOrAdd] at hrow
        exact .inl ⟨row, hrow, .refl row⟩
      · cases h
    · cases h
  | execute i =>
    simp only [step] at h
    split at h
    · rename_i call hi
      obtain ⟨db, hdb, rfl⟩ := Option.map_eq_some_iff.mp h
      rcases Call.execute_origin hdb hrow with hrow | ⟨huser, hstores⟩
      · exact .inl ⟨row, hrow, .refl row⟩
      · exact .inr ⟨i, call, rfl, hi, huser, hstores⟩
    · cases h
  | fail i =>
    obtain rfl := Option.some.inj h
    exact .inl ⟨row, hrow, .refl row⟩
  | incrementVisit id =>
    obtain rfl := Option.some.inj h
    exact .inl (sameLink_incrementVisit hrow)

/-! ## Ids -/

/-- `Id` is the primary key of `Url`, and its sequence is ahead of it. -/
structure Keyed (db : Database) : Prop where
  nodup : (db.urls.map UrlRow.id).Nodup
  pos : ∀ url ∈ db.urls, 0 < url.id
  le : ∀ url ∈ db.urls, url.id ≤ db.urlSequence
  nonneg : 0 ≤ db.urlSequence

theorem keyed_init : Keyed .init :=
  ⟨by simp [Database.init], by simp [Database.init], by simp [Database.init], le_rfl⟩

theorem Keyed.eq (h : Keyed db) {row row' : UrlRow} (hrow : row ∈ db.urls) (hrow' : row' ∈ db.urls)
    (hid : row.id = row'.id) : row = row' :=
  List.inj_on_of_nodup_map h.nodup hrow hrow' hid

theorem Keyed.add (h : Keyed db) (userId : ℤ) (destinationUrl : String) (domainId : ℤ) :
    Keyed (db.add userId destinationUrl domainId) where
  nodup := by
    show ((db.urls ++ [_]).map UrlRow.id).Nodup
    rw [List.map_append]
    refine List.Nodup.append h.nodup (List.nodup_singleton _) ?_
    intro id hid hnew
    obtain ⟨url, hurl, rfl⟩ := List.mem_map.mp hid
    have hle := h.le url hurl
    have hid : url.id = db.urlSequence + 1 := by simpa using hnew
    omega
  pos := by
    intro url hurl
    rcases List.mem_append.mp hurl with hurl | hurl
    · exact h.pos url hurl
    · obtain rfl := List.mem_singleton.mp hurl
      have := h.nonneg
      show 0 < db.urlSequence + 1
      omega
  le := by
    intro url hurl
    show url.id ≤ db.urlSequence + 1
    rcases List.mem_append.mp hurl with hurl | hurl
    · have := h.le url hurl
      omega
    · obtain rfl := List.mem_singleton.mp hurl
      exact le_rfl
  nonneg := by
    have := h.nonneg
    show 0 ≤ db.urlSequence + 1
    omega

/-- A statement that changes rows in place keeps their ids. -/
theorem Keyed.map (h : Keyed db) {f : UrlRow → UrlRow} (hf : ∀ url, (f url).id = url.id) :
    Keyed { db with urls := db.urls.map f } where
  nodup := by
    have hids : (db.urls.map f).map UrlRow.id = db.urls.map UrlRow.id := by
      rw [List.map_map]
      exact List.map_congr_left fun url _ => hf url
    show ((db.urls.map f).map UrlRow.id).Nodup
    rw [hids]
    exact h.nodup
  pos := by
    intro url hurl
    obtain ⟨url', hurl', rfl⟩ := List.mem_map.mp hurl
    rw [hf]
    exact h.pos url' hurl'
  le := by
    intro url hurl
    obtain ⟨url', hurl', rfl⟩ := List.mem_map.mp hurl
    rw [hf]
    exact h.le url' hurl'
  nonneg := h.nonneg

theorem Keyed.filter (h : Keyed db) (p : UrlRow → Bool) :
    Keyed { db with urls := db.urls.filter p } where
  nodup := h.nodup.sublist (List.filter_sublist.map _)
  pos := fun url hurl => h.pos url (List.mem_filter.mp hurl).1
  le := fun url hurl => h.le url (List.mem_filter.mp hurl).1
  nonneg := h.nonneg

theorem Keyed.incrementVisit (h : Keyed db) (id : ℤ) : Keyed (db.incrementVisit id) :=
  h.map fun url => by split_ifs <;> rfl

theorem Keyed.execute (h : Keyed db) {call : Call ω} (hexecute : call.execute db = some db') :
    Keyed db' := by
  unfold Call.execute at hexecute
  split at hexecute
  · obtain rfl := Option.some.inj hexecute
    exact h.add _ _ _
  · split at hexecute
    · obtain rfl := Option.some.inj hexecute
      exact h.map fun url => by split_ifs <;> rfl
    · cases hexecute
  · split at hexecute
    · obtain rfl := Option.some.inj hexecute
      exact h.filter _
    · cases hexecute
  · cases hexecute

@[simp] theorem Database.urlSequence_getOrAdd (db : Database) (name : String) :
    (db.getOrAdd env name).1.urlSequence = db.urlSequence := by
  unfold Database.getOrAdd
  dsimp only
  split <;> rfl

theorem Keyed.step (h : Keyed s.database) (hstep : step env tryCreate s e = some t) :
    Keyed t.database := by
  cases e with
  | receive origin request =>
    obtain rfl := Option.some.inj hstep
    exact h
  | getOrAdd i =>
    simp only [Links.step] at hstep
    split at hstep
    · split at hstep
      · obtain rfl := Option.some.inj hstep
        exact ⟨by simpa using h.nodup, by simpa using h.pos, by simpa using h.le,
          by simpa using h.nonneg⟩
      · cases hstep
    · cases hstep
  | execute i =>
    simp only [Links.step] at hstep
    split at hstep
    · obtain ⟨db, hdb, rfl⟩ := Option.map_eq_some_iff.mp hstep
      exact h.execute hdb
    · cases hstep
  | fail i =>
    obtain rfl := Option.some.inj hstep
    exact h
  | incrementVisit id =>
    obtain rfl := Option.some.inj hstep
    exact h.incrementVisit id

/-! ## Views -/

theorem Call.execute_totalViews {call : Call ω} (h : call.execute db = some db') {row : UrlRow}
    (hrow : row ∈ db'.urls) :
    (∃ row' ∈ db.urls, row'.id = row.id ∧ row'.totalViews = row.totalViews) ∨
      row.totalViews = 0 ∧ row.id = db.urlSequence + 1 := by
  unfold Call.execute at h
  split at h
  · obtain rfl := Option.some.inj h
    rcases List.mem_append.mp hrow with hrow | hrow
    · exact .inl ⟨row, hrow, rfl, rfl⟩
    · obtain rfl := List.mem_singleton.mp hrow
      exact .inr ⟨rfl, rfl⟩
  · split at h
    · obtain rfl := Option.some.inj h
      obtain ⟨row', hrow', rfl⟩ := List.mem_map.mp hrow
      exact .inl ⟨row', hrow', by split_ifs <;> rfl, by split_ifs <;> rfl⟩
    · cases h
  · split at h
    · obtain rfl := Option.some.inj h
      exact .inl ⟨row, (List.mem_filter.mp hrow).1, rfl, rfl⟩
    · cases h
  · cases h

/-- A row keeps its views but for redirects, and a new row has none. -/
theorem step_totalViews (h : step env tryCreate s e = some t) (hno : ∀ id, e ≠ .incrementVisit id)
    {row : UrlRow} (hrow : row ∈ t.database.urls) :
    (∃ row' ∈ s.database.urls, row'.id = row.id ∧ row'.totalViews = row.totalViews) ∨
      row.totalViews = 0 ∧ row.id = s.database.urlSequence + 1 := by
  cases e with
  | receive origin request =>
    obtain rfl := Option.some.inj h
    exact .inl ⟨row, hrow, rfl, rfl⟩
  | getOrAdd i =>
    simp only [step] at h
    split at h
    · split at h
      · obtain rfl := Option.some.inj h
        rw [Database.urls_getOrAdd] at hrow
        exact .inl ⟨row, hrow, rfl, rfl⟩
      · cases h
    · cases h
  | execute i =>
    simp only [step] at h
    split at h
    · obtain ⟨db, hdb, rfl⟩ := Option.map_eq_some_iff.mp h
      exact Call.execute_totalViews hdb hrow
    · cases h
  | fail i =>
    obtain rfl := Option.some.inj h
    exact .inl ⟨row, hrow, rfl, rfl⟩
  | incrementVisit id => exact absurd rfl (hno id)

/-! ## Updates -/

/-- The call replaces the destination of row `id`. -/
def Call.Updates (call : Call ω) (id : ℤ) : Prop :=
  ∃ userId shortId destinationUrl parsed,
    call.request = .update userId shortId destinationUrl ∧ parseId shortId = .ret parsed ∧
      parsed.index = id

theorem Call.execute_sameLink {call : Call ω} (h : call.execute db = some db') {row : UrlRow}
    (hrow : row ∈ db'.urls) (hid : row.id ≤ db.urlSequence) (hno : ¬ call.Updates row.id) :
    row ∈ db.urls := by
  unfold Call.execute at h
  split at h
  · obtain rfl := Option.some.inj h
    rcases List.mem_append.mp hrow with hrow | hrow
    · exact hrow
    · obtain rfl := List.mem_singleton.mp hrow
      dsimp only at hid
      omega
  · rename_i userId shortId destinationUrl domainId hrequest _
    split at h
    · rename_i id hparse
      obtain rfl := Option.some.inj h
      obtain ⟨row', hrow', rfl⟩ := List.mem_map.mp hrow
      split_ifs at hno ⊢ with hmatch
      · exact absurd ⟨_, _, _, _, hrequest, hparse, hmatch.1.symm⟩ hno
      · exact hrow'
    · cases h
  · split at h
    · obtain rfl := Option.some.inj h
      exact (List.mem_filter.mp hrow).1
    · cases h
  · cases h

theorem Call.execute_urlSequence {call : Call ω} (h : call.execute db = some db') :
    db.urlSequence ≤ db'.urlSequence := by
  unfold Call.execute at h
  split at h
  · obtain rfl := Option.some.inj h
    exact Int.le_add_one le_rfl
  · split at h
    · obtain rfl := Option.some.inj h
      exact le_rfl
    · cases h
  · split at h
    · obtain rfl := Option.some.inj h
      exact le_rfl
    · cases h
  · cases h

/-- A row that is not new shows the link it showed before, if the step is no update of it. -/
theorem step_sameLink (h : step env tryCreate s e = some t) {row : UrlRow}
    (hrow : row ∈ t.database.urls) (hid : row.id ≤ s.database.urlSequence)
    (hno : ∀ i call, e = .execute i → s.calls[i]? = some call → ¬ call.Updates row.id) :
    ∃ row' ∈ s.database.urls, row'.SameLink row := by
  cases e with
  | execute i =>
    simp only [step] at h
    split at h
    · rename_i call hi
      obtain ⟨db, hdb, rfl⟩ := Option.map_eq_some_iff.mp h
      exact ⟨row, Call.execute_sameLink hdb hrow hid (hno i call rfl hi), .refl row⟩
    · cases h
  | _ =>
    rcases row_origin h hrow with hsame | ⟨i, call, he, -⟩
    · exact hsame
    · cases he

theorem step_urlSequence (h : step env tryCreate s e = some t) :
    s.database.urlSequence ≤ t.database.urlSequence := by
  cases e with
  | receive origin request =>
    obtain rfl := Option.some.inj h
    exact le_rfl
  | getOrAdd i =>
    simp only [step] at h
    split at h
    · split at h
      · obtain rfl := Option.some.inj h
        exact (Database.urlSequence_getOrAdd _ _).ge
      · cases h
    · cases h
  | execute i =>
    simp only [step] at h
    split at h
    · obtain ⟨db, hdb, rfl⟩ := Option.map_eq_some_iff.mp h
      exact Call.execute_urlSequence hdb
    · cases h
  | fail i =>
    obtain rfl := Option.some.inj h
    exact le_rfl
  | incrementVisit id =>
    obtain rfl := Option.some.inj h
    exact le_rfl

end

/-! ## Owners -/

namespace Owner

variable {env : Globalization} {tryCreate : String → Option Uri} {es : List Event} {s t : State}
  {e : Event}

/-- A client has asked for what the row shows, with a token of its user. -/
def FromOwner (env : Globalization) (tryCreate : String → Option Uri) (es : List Event) (r : ℤ)
    (row : UrlRow) : Prop :=
  ∃ sub request, Asked env tryCreate es sub r request ∧
    UserId.tryParse sub = some ⟨r, row.userId⟩ ∧ request.stores = some row.destinationUrl

theorem FromOwner.of_sameLink {r : ℤ} {row row' : UrlRow} (h : FromOwner env tryCreate es r row')
    (hsame : row'.SameLink row) : FromOwner env tryCreate es r row := by
  obtain ⟨sub, request, hasked, hsub, hstores⟩ := h
  rw [← hsame.userId] at hsub
  rw [← hsame.destinationUrl] at hstores
  exact ⟨sub, request, hasked, hsub, hstores⟩

theorem FromOwner.append {r : ℤ} {row : UrlRow} (h : FromOwner env tryCreate es r row)
    (es' : List Event) : FromOwner env tryCreate (es ++ es') r row := by
  obtain ⟨sub, request, hasked, h⟩ := h
  exact ⟨sub, request, hasked.append es', h⟩

theorem fromOwner_step (hi : Inv env tryCreate es s)
    (hrows : ∀ r, ∀ row ∈ (s.shards r).database.urls, FromOwner env tryCreate es r row)
    (h : step env tryCreate s e = some t) {r : ℤ} {row : UrlRow}
    (hrow : row ∈ (t.shards r).database.urls) : FromOwner env tryCreate es r row := by
  rcases step_shard h r with heq | ⟨e', rfl, hshard⟩
  · rw [heq] at hrow
    exact hrows r row hrow
  · rcases row_origin hshard hrow with ⟨row', hrow', hsame⟩ | ⟨i, call, rfl, hcall, huser, hstores⟩
    · exact (hrows r row' hrow').of_sameLink hsame
    · have hasked := hi.calls r call (List.mem_of_getElem? hcall)
      obtain ⟨clientRequest, canShardCreateNewUrl, -, hok⟩ := hasked
      have hparse := handle_ok hok
      rw [huser] at hparse
      exact ⟨call.origin, call.request, hi.calls r call (List.mem_of_getElem? hcall), hparse, hstores⟩

theorem keyed_step (hs : ∀ r, Keyed (s.shards r).database) (h : step env tryCreate s e = some t)
    (r : ℤ) : Keyed (t.shards r).database := by
  rcases step_shard h r with heq | ⟨e', rfl, hshard⟩
  · rw [heq]
    exact hs r
  · exact (hs r).step hshard

end Owner

end Shortener.Links
