import Shortener.Links.Database

/-!
# Counts per domain

`GetUrlCountConsumer` (`Shortener.GrpcBackend/Consumers/GetUrlCountConsumer.cs`, lines 26–32)
counts the links to a domain by the `DomainId` of their rows, which `Create` and `Update` fill
in next to `DestinationUrl`.

* `inv_run`: every `DomainId` refers to the domain of the destination, and names are unique.
* `counts_right`: so the count is the number of links to the domain, ignoring case.
-/

namespace Shortener.Links.Domains

open Shortener.Common Shortener.DotNet Shortener.Codec

/-- The count of `GetUrlCountConsumer.Consume`. -/
def urlCount (env : Globalization) (db : Database) (name : String) : Except String ℕ := do
  match ← db.get env name with
  | some domain => return db.getCount domain.id
  | none => return 0

/-- The destination of the row is on this host, ignoring case. -/
def toHost (env : Globalization) (tryCreate : String → Option Uri) (name : String) (row : UrlRow) :
    Bool :=
  match isValidHttpUrl tryCreate row.destinationUrl with
  | some uri => env.toLowerInvariant uri.host = env.toLowerInvariant name
  | none => false

/-! ## The invariant -/

variable {ω : Type} {env : Globalization} {tryCreate : String → Option Uri} {s t : Shard ω}
  {e : Event ω} {es : List (Event ω)} {db : Database} {id : ℤ} {name host : String}

/-- The id is that of the domain of the host. -/
def Refers (env : Globalization) (db : Database) (id : ℤ) (host : String) : Prop :=
  ⟨id, env.toLowerInvariant host⟩ ∈ db.domains

/-- Names and ids of domains are unique, and the sequence has passed the ids. -/
structure DomainsInv (db : Database) : Prop where
  names : (db.domains.map DomainRow.name).Nodup
  ids : (db.domains.map DomainRow.id).Nodup
  sequence : ∀ domain ∈ db.domains, domain.id ≤ db.domainSequence

/-- A row and a call in progress have the domain of their destination. -/
structure Inv (env : Globalization) (tryCreate : String → Option Uri) (s : Shard ω) : Prop where
  domains : DomainsInv s.database
  urls : ∀ row ∈ s.database.urls, ∃ uri, isValidHttpUrl tryCreate row.destinationUrl = some uri ∧
    Refers env s.database row.domainId uri.host
  calls : ∀ call ∈ s.calls, ∀ id, call.domainId = some id → ∃ uri,
    call.request.uri tryCreate = some uri ∧ Refers env s.database id uri.host

/-- What `GetOrAdd` does: it finds the only domain of that name, or adds it. -/
theorem getOrAdd_spec (env : Globalization) (hi : DomainsInv db) (host : String) :
    DomainsInv (db.getOrAdd env host).1 ∧
      Refers env (db.getOrAdd env host).1 (db.getOrAdd env host).2.id host ∧
      ∀ domain ∈ db.domains, domain ∈ (db.getOrAdd env host).1.domains := by
  simp only [Database.getOrAdd]
  split
  · rename_i domain hfind
    have hmem := List.mem_of_find?_eq_some hfind
    have hname : domain.name = env.toLowerInvariant host := by
      simpa using List.find?_some hfind
    refine ⟨hi, ?_, fun _ h => h⟩
    show DomainRow.mk domain.id (env.toLowerInvariant host) ∈ db.domains
    rwa [← hname]
  · rename_i hfind
    have hnew : ∀ domain ∈ db.domains, domain.name ≠ env.toLowerInvariant host := by
      intro domain hdomain
      simpa using List.find?_eq_none.mp hfind domain hdomain
    refine ⟨⟨?_, ?_, ?_⟩, List.mem_append_right _ (List.mem_singleton_self _),
      fun _ h => List.mem_append_left _ h⟩
    · show ((db.domains ++ [_]).map DomainRow.name).Nodup
      rw [List.map_append, List.map_singleton]
      apply List.Nodup.append hi.names (List.nodup_singleton _)
      rw [List.disjoint_singleton]
      intro hmem
      obtain ⟨domain, hdomain, hname⟩ := List.mem_map.mp hmem
      exact hnew domain hdomain hname
    · -- the sequence is above all ids
      show ((db.domains ++ [_]).map DomainRow.id).Nodup
      rw [List.map_append, List.map_singleton]
      apply List.Nodup.append hi.ids (List.nodup_singleton _)
      rw [List.disjoint_singleton]
      intro hmem
      obtain ⟨domain, hdomain, hid⟩ := List.mem_map.mp hmem
      have := hi.sequence domain hdomain
      simp only at hid
      omega
    · intro domain hdomain
      show domain.id ≤ db.domainSequence + 1
      rcases List.mem_append.mp hdomain with hdomain | hdomain
      · have := hi.sequence domain hdomain
        omega
      · obtain rfl := List.mem_singleton.mp hdomain
        exact le_rfl

/-- A statement on the table `Url` alone. -/
theorem DomainsInv.of_eq {db' : Database} (hi : DomainsInv db) (hdomains : db'.domains = db.domains)
    (hsequence : db'.domainSequence = db.domainSequence) : DomainsInv db' := by
  refine ⟨?_, ?_, ?_⟩
  · rw [hdomains]; exact hi.names
  · rw [hdomains]; exact hi.ids
  · rw [hdomains, hsequence]; exact hi.sequence

/-- What the last statement of a call does to the tables. -/
theorem execute_spec (tryCreate : String → Option Uri) {call : Call ω} {db' : Database}
    (h : call.execute db = some db') :
    (db'.domains = db.domains ∧ db'.domainSequence = db.domainSequence) ∧
      ∀ row ∈ db'.urls, row ∈ db.urls ∨
        ∃ id, call.domainId = some id ∧ row.domainId = id ∧
          ∀ uri, call.request.uri tryCreate = some uri →
            isValidHttpUrl tryCreate row.destinationUrl = some uri := by
  unfold Call.execute at h
  split at h
  · rename_i userId destinationUrl domainId hrequest hdomain
    obtain rfl := Option.some.inj h
    refine ⟨⟨rfl, rfl⟩, ?_⟩
    intro row hrow
    rcases List.mem_append.mp hrow with hrow | hrow
    · exact .inl hrow
    · obtain rfl := List.mem_singleton.mp hrow
      right
      refine ⟨domainId, hdomain, rfl, ?_⟩
      intro uri huri
      rw [hrequest] at huri
      exact huri
  · rename_i userId shortId destinationUrl domainId hrequest hdomain
    split at h
    · rename_i urlId hparse
      obtain rfl := Option.some.inj h
      refine ⟨⟨rfl, rfl⟩, ?_⟩
      intro row hrow
      obtain ⟨row', hrow', heq⟩ := List.mem_map.mp hrow
      split_ifs at heq
      · subst heq
        right
        refine ⟨domainId, hdomain, rfl, ?_⟩
        intro uri huri
        rw [hrequest, Request.uri, hparse] at huri
        simpa using huri
      · subst heq
        exact .inl hrow'
    · cases h
  · split at h
    · obtain rfl := Option.some.inj h
      exact ⟨⟨rfl, rfl⟩, fun row hrow => .inl (List.mem_of_mem_filter hrow)⟩
    · cases h
  · cases h

/-- The calls of a step, when the tables keep what they refer to. -/
theorem Inv.calls_step (hi : Inv env tryCreate s) (h : step env tryCreate s e = some t)
    (hkept : ∀ domain ∈ s.database.domains, domain ∈ t.database.domains) :
    ∀ call ∈ t.calls, ∀ id, call.domainId = some id → ∃ uri,
      call.request.uri tryCreate = some uri ∧ Refers env t.database id uri.host := by
  intro call hcall id hid
  rcases step_call h hcall with hcall | ⟨i, call', uri, -, -, huri, hdatabase, rfl⟩ | ⟨-, hnone⟩
  · obtain ⟨uri, huri, hrefers⟩ := hi.calls call hcall id hid
    exact ⟨uri, huri, hkept _ hrefers⟩
  · -- the call has just got the domain of its host
    refine ⟨uri, huri, ?_⟩
    rw [hdatabase, ← Option.some.inj hid]
    exact (getOrAdd_spec env hi.domains uri.host).2.1
  · rw [hnone] at hid
    cases hid

theorem Inv.step (hi : Inv env tryCreate s) (h : step env tryCreate s e = some t) :
    Inv env tryCreate t := by
  cases e with
  | receive origin request =>
    have hcalls := hi.calls_step h
    obtain rfl := Option.some.inj h
    exact ⟨hi.domains, hi.urls, hcalls fun _ h => h⟩
  | getOrAdd i =>
    have hcalls := hi.calls_step h
    simp only [Links.step] at h
    split at h
    · split at h
      · rename_i uri _ _
        obtain rfl := Option.some.inj h
        obtain ⟨hdomains, -, hkept⟩ := getOrAdd_spec env hi.domains uri.host
        refine ⟨hdomains, ?_, hcalls hkept⟩
        intro row hrow
        obtain ⟨uri', huri', hrefers⟩ := hi.urls row (by rwa [Database.urls_getOrAdd] at hrow)
        exact ⟨uri', huri', hkept _ hrefers⟩
      · cases h
    · cases h
  | execute i =>
    have hcalls := hi.calls_step h
    simp only [Links.step] at h
    split at h
    · rename_i call hi'
      obtain ⟨db, hdb, rfl⟩ := Option.map_eq_some_iff.mp h
      obtain ⟨⟨hdomains, hsequence⟩, hrows⟩ := execute_spec tryCreate hdb
      have hkept : ∀ domain ∈ s.database.domains, domain ∈ db.domains := by
        rw [hdomains]
        exact fun _ h => h
      refine ⟨hi.domains.of_eq hdomains hsequence, ?_, hcalls hkept⟩
      intro row hrow
      rcases hrows row hrow with hrow | ⟨id, hid, hrowId, hdestination⟩
      · obtain ⟨uri, huri, hrefers⟩ := hi.urls row hrow
        exact ⟨uri, huri, hkept _ hrefers⟩
      · obtain ⟨uri, huri, hrefers⟩ := hi.calls call (List.mem_of_getElem? hi') id hid
        exact ⟨uri, hdestination uri huri, hrowId ▸ hkept _ hrefers⟩
    · cases h
  | fail i =>
    have hcalls := hi.calls_step h
    obtain rfl := Option.some.inj h
    exact ⟨hi.domains, hi.urls, hcalls fun _ h => h⟩
  | incrementVisit id =>
    have hcalls := hi.calls_step h
    obtain rfl := Option.some.inj h
    refine ⟨hi.domains.of_eq rfl rfl, ?_, hcalls fun _ h => h⟩
    intro row hrow
    obtain ⟨row', hrow', rfl⟩ := List.mem_map.mp hrow
    obtain ⟨uri, huri, hrefers⟩ := hi.urls row' hrow'
    split_ifs
    · exact ⟨uri, huri, hrefers⟩
    · exact ⟨uri, huri, hrefers⟩

theorem inv_run (h : Run (step env tryCreate) always (⟨.init, []⟩ : Shard ω) es s) :
    Inv env tryCreate s := by
  apply h.invariant
  · exact ⟨⟨List.nodup_nil, List.nodup_nil, fun _ h => absurd h List.not_mem_nil⟩,
      fun _ h => absurd h List.not_mem_nil, fun _ h => absurd h List.not_mem_nil⟩
  · exact fun _ _ _ hi _ hs => hi.step hs

/-! ## The count -/

/-- An id and a name belong to one domain. -/
theorem DomainsInv.id_inj (hi : DomainsInv db) {domain domain' : DomainRow} (h : domain ∈ db.domains)
    (h' : domain' ∈ db.domains) (hid : domain.id = domain'.id) : domain = domain' :=
  List.inj_on_of_nodup_map hi.ids h h' hid

theorem DomainsInv.name_inj (hi : DomainsInv db) {domain domain' : DomainRow} (h : domain ∈ db.domains)
    (h' : domain' ∈ db.domains) (hname : domain.name = domain'.name) : domain = domain' :=
  List.inj_on_of_nodup_map hi.names h h' hname

/-- `Get` finds the domain of the name, if there is one. -/
theorem get_eq (env : Globalization) (hi : DomainsInv db) (name : String) :
    (∃ domain ∈ db.domains, domain.name = env.toLowerInvariant name ∧
        db.get env name = .ok (some domain)) ∨
      (∀ domain ∈ db.domains, domain.name ≠ env.toLowerInvariant name) ∧
        db.get env name = .ok none := by
  have hmem : ∀ domain,
      domain ∈ (db.domains.filter fun domain => domain.name = env.toLowerInvariant name) ↔
        domain ∈ db.domains ∧ domain.name = env.toLowerInvariant name := by
    intro domain
    rw [List.mem_filter, decide_eq_true_eq]
  have hnodup : (db.domains.filter fun domain => domain.name = env.toLowerInvariant name).Nodup :=
    (List.Nodup.of_map _ hi.names).filter _
  unfold Database.get
  cases hfilter : db.domains.filter fun domain => domain.name = env.toLowerInvariant name with
  | nil =>
    right
    refine ⟨?_, rfl⟩
    intro domain hdomain hname
    have := (hmem domain).mpr ⟨hdomain, hname⟩
    rw [hfilter] at this
    cases this
  | cons domain rest =>
    left
    rw [hfilter] at hmem hnodup
    obtain ⟨hdomain, hname⟩ := (hmem domain).mp List.mem_cons_self
    refine ⟨domain, hdomain, hname, ?_⟩
    cases rest with
    | nil => rfl
    | cons domain' rest =>
      -- a second row of the name would be the first one again
      obtain ⟨hdomain', hname'⟩ := (hmem domain').mp (by simp)
      have heq := hi.name_inj hdomain hdomain' (hname.trans hname'.symm)
      rw [heq] at hnodup
      exact absurd List.mem_cons_self (List.nodup_cons.mp hnodup).1

/-- **Counts per domain are right.** -/
theorem counts_right (h : Run (step env tryCreate) always (⟨.init, []⟩ : Shard ω) es s) :
    (∀ row ∈ s.database.urls, ∃ uri domain, isValidHttpUrl tryCreate row.destinationUrl = some uri ∧
      domain ∈ s.database.domains ∧ domain.id = row.domainId ∧
      domain.name = env.toLowerInvariant uri.host ∧
      ∀ domain' ∈ s.database.domains, domain'.id = row.domainId → domain' = domain) ∧
    (s.database.domains.map DomainRow.name).Nodup ∧
    ∀ name, urlCount env s.database name =
      .ok (s.database.urls.countP (toHost env tryCreate name)) := by
  have hi := inv_run h
  refine ⟨?_, hi.domains.names, ?_⟩
  · intro row hrow
    obtain ⟨uri, huri, hrefers⟩ := hi.urls row hrow
    exact ⟨uri, _, huri, hrefers, rfl, rfl, fun domain' hdomain' hid =>
      hi.domains.id_inj hdomain' hrefers hid⟩
  · intro name
    rcases get_eq env hi.domains name with ⟨domain, hdomain, hname, hget⟩ | ⟨hnone, hget⟩
    · have hcount : s.database.getCount domain.id =
          s.database.urls.countP (toHost env tryCreate name) := by
        apply List.countP_congr
        intro row hrow
        obtain ⟨uri, huri, hrefers⟩ := hi.urls row hrow
        simp only [toHost, huri, decide_eq_true_eq]
        constructor
        · intro hid
          have heq := hi.domains.id_inj hrefers hdomain hid
          rw [← hname, ← heq]
        · intro hhost
          have heq := hi.domains.name_inj hrefers hdomain (hhost.trans hname.symm)
          rw [← heq]
      rw [urlCount, hget, ← hcount]
      rfl
    · -- no row refers to an absent domain
      have hzero : s.database.urls.countP (toHost env tryCreate name) = 0 := by
        rw [List.countP_eq_zero]
        intro row hrow
        obtain ⟨uri, huri, hrefers⟩ := hi.urls row hrow
        simp only [toHost, huri, decide_eq_true_eq]
        exact hnone _ hrefers
      rw [urlCount, hget, hzero]
      rfl

/-! ## One link -/

/-- `Uri.TryCreate` on one URL. -/
def httpsUri (s : String) : Option Uri :=
  if s = "https://example.com/1" then some ⟨"https", "example.com", "/1"⟩ else none

/-- User 7 creates a link to it. -/
def createLink : List (Event Unit) :=
  [.receive () (.create 7 "https://example.com/1"), .getOrAdd 0, .execute 0]

/-- His link. -/
def exampleLink : UrlRow := ⟨1, 7, 1, "https://example.com/1", 0⟩

theorem toHost_exampleLink : toHost .invariantMode httpsUri "Example.COM" exampleLink = true := by
  have huri : isValidHttpUrl httpsUri "https://example.com/1" =
      some ⟨"https", "example.com", "/1"⟩ := by decide +kernel
  have hhost : Globalization.invariantMode.toLowerInvariant "example.com" = "example.com" := by
    decide +kernel
  have hname : Globalization.invariantMode.toLowerInvariant "Example.COM" = "example.com" := by
    decide +kernel
  simp only [toHost, exampleLink, huri, hhost, hname, decide_true]

/-- The link is counted for its host in any case. -/
theorem counts_right_createLink :
    ∃ s, Run (step .invariantMode httpsUri) always ⟨.init, []⟩ createLink s ∧
      urlCount .invariantMode s.database "Example.COM" = .ok 1 := by
  have hrun : ((createLink.foldlM (step .invariantMode httpsUri) ⟨.init, []⟩).map fun s =>
      s.database.urls) = some [exampleLink] := by
    decide +kernel
  obtain ⟨s, hs, hurls⟩ := Option.map_eq_some_iff.mp hrun
  have hrun := run_iff_foldlM.mpr hs
  refine ⟨s, hrun, ?_⟩
  rw [(counts_right hrun).2.2 "Example.COM", hurls, List.countP_singleton, toHost_exampleLink]
  rfl

end Shortener.Links.Domains
