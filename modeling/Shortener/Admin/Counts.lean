import Shortener.DotNet.Dictionary
import Shortener.DotNet.Integer
import Shortener.Links.Domains

/-!
# Counting the links to a domain on all shards

`UrlService` of the admin service (`Shortener.Admin/Services/UrlService.cs`) publishes a
`GetUrlCountRequest` and collects the counts from a hash; `GetUrlCountConsumer` of the backends
(`Shortener.GrpcBackend/Consumers/GetUrlCountConsumer.cs`) puts them there. MassTransit names a
queue after the class of its consumer, so that all backends share one, and gives a message to one
consumer of a queue.

* `run_eq`: in every run one replica of one shard handles the request.
* `aggregated_iff`: the counts are complete exactly when there is one shard, and its master
  receives the request.
-/

namespace Shortener.Admin.Counts

open Shortener.Common Shortener.DotNet Shortener.Links Shortener.Links.Domains

/-! ## Backends -/

/-- A replica of a shard. -/
structure Process where
  shard : ℤ
  replica : ℕ
  deriving DecidableEq, Repr

/-- The online shards with their replicas, one of which is the master. -/
structure Deployment where
  shards : List ℤ
  nodup : shards.Nodup
  nonempty : shards ≠ []
  /-- `SHARD_ID` is parsed as a `long`. -/
  valid : ∀ r ∈ shards, IsInt64 r
  replicas : ℤ → ℕ
  master : ℤ → ℕ
  master_lt : ∀ r ∈ shards, master r < replicas r

/-- The backend processes, one for each replica of a shard. -/
def Deployment.processes (d : Deployment) : List Process :=
  d.shards.flatMap fun r => (List.range (d.replicas r)).map fun replica => ⟨r, replica⟩

/-- `IsMaster`. -/
def Deployment.isMaster (d : Deployment) (p : Process) : Bool := p.replica = d.master p.shard

/-- The queue that `ConfigureEndpoints` gives to the consumer of a process. -/
def queueOf (endpointName : String → String) (_ : Process) : String :=
  endpointName "GetUrlCountConsumer"

/-- The queues that `Publish` reaches. -/
def Deployment.queues (d : Deployment) (endpointName : String → String) : List String :=
  (d.processes.map (queueOf endpointName)).dedup

/-! ## The request and its deliveries -/

/-- The broker, and the hash in Redis. -/
structure State where
  /-- the queues that hold the request -/
  messages : List String
  /-- the hash at `UrlCountHashKey` of the domain -/
  hash : Dictionary String ℤ

/-- Nothing is sent, and nothing is counted. -/
def State.init : State := ⟨[], ∅⟩

/-- What can happen next. -/
inductive Event
  /-- `MakeCountAggregation`. -/
  | publish
  /-- A process receives the request and handles it on its database. -/
  | consume (p : Process) (db : Database)
  deriving DecidableEq, Repr

section

variable (d : Deployment) (endpointName : String → String) (env : Globalization) (domain : String)

/-- `GetUrlCountConsumer.Consume`. -/
def consume (p : Process) (db : Database) (hash : Dictionary String ℤ) :
    Except String (Dictionary String ℤ) := do
  if ¬ d.isMaster p then return hash
  else
    let count ← urlCount env db domain
    return hash.insert (toString p.shard) count

/-- A step without errors. -/
def step (s : State) : Event → Option State
  | .publish => some { s with messages := s.messages ++ d.queues endpointName }
  | .consume p db =>
    if p ∈ d.processes ∧ queueOf endpointName p ∈ s.messages then
      match consume d env domain p db s.hash with
      | .ok hash => some ⟨s.messages.erase (queueOf endpointName p), hash⟩
      | .error _ => none
    else none

end

/-! ## The counts -/

/-- `GetHashAll`. -/
def getHashAll (hash : Dictionary String ℤ) : Option (Dictionary String ℤ) :=
  if hash.entries = [] then none else some hash

/-- `long.Parse` of a key of the hash. -/
def parseShardId (text : String) : Exec ℤ :=
  match tryParseInt64 text.toList with
  | some shard => .ret shard
  | none => .throw (.format s!"The input string '{text}' was not in a correct format.")

/-- `GetAggregatedCounts`. -/
def getAggregatedCounts (onlineShards : List ℤ) (hash : Dictionary String ℤ) :
    Exec (Dictionary ℤ (Option ℤ)) := do
  let counts ← onlineShards.foldlM (fun counts shard => counts.add shard none) ∅
  match getHashAll hash with
  | none => return counts
  | some entries =>
    entries.entries.foldlM
      (fun counts entry => do
        let shard ← parseShardId entry.1
        return counts.insert shard (some entry.2))
      counts

/-- The answer has for every shard the count that `Consume` has computed there. -/
def Aggregated (d : Deployment) (env : Globalization) (domain : String) (es : List Event) (s : State) :
    Prop :=
  ∃ counts, getAggregatedCounts d.shards s.hash = .ret counts ∧
    ∀ r ∈ d.shards, ∃ p db, ∃ n : ℕ, .consume p db ∈ es ∧ p.shard = r ∧
      urlCount env db domain = .ok n ∧ counts.lookup r = some (some (n : ℤ))

/-! ## Who handles the request -/

variable {d : Deployment} {endpointName : String → String} {env : Globalization} {domain : String}
  {s : State} {es : List Event} {p : Process} {db : Database}

theorem mem_processes : p ∈ d.processes ↔ p.shard ∈ d.shards ∧ p.replica < d.replicas p.shard := by
  constructor
  · intro h
    obtain ⟨r, hr, h⟩ := List.mem_flatMap.mp h
    obtain ⟨replica, hreplica, rfl⟩ := List.mem_map.mp h
    exact ⟨hr, List.mem_range.mp hreplica⟩
  · intro h
    exact List.mem_flatMap.mpr ⟨p.shard, h.1, List.mem_map.mpr ⟨p.replica, List.mem_range.mpr h.2, rfl⟩⟩

/-- All backends share one queue. -/
theorem queues_eq (d : Deployment) (endpointName : String → String) :
    d.queues endpointName = [endpointName "GetUrlCountConsumer"] := by
  obtain ⟨r, hr⟩ := List.exists_mem_of_ne_nil _ d.nonempty
  have hmem : ⟨r, d.master r⟩ ∈ d.processes := mem_processes.mpr ⟨hr, d.master_lt r hr⟩
  have hmap : d.processes.map (queueOf endpointName) =
      List.replicate d.processes.length (endpointName "GetUrlCountConsumer") := List.map_const'
  rw [Deployment.queues, hmap, List.replicate_dedup (List.length_pos_of_mem hmem).ne']

theorem step_consume {t : State} (h : step d endpointName env domain s (.consume p db) = some t) :
    p ∈ d.processes ∧ endpointName "GetUrlCountConsumer" ∈ s.messages ∧
      ∃ hash, consume d env domain p db s.hash = .ok hash ∧
        t = ⟨s.messages.erase (endpointName "GetUrlCountConsumer"), hash⟩ := by
  simp only [step, Option.ite_none_right_eq_some] at h
  obtain ⟨⟨hp, hqueue⟩, h⟩ := h
  split at h
  · rename_i hash hconsume
    exact ⟨hp, hqueue, hash, hconsume, (Option.some.inj h).symm⟩
  · cases h

/-- A run that has published nothing, or one request. -/
theorem run_cases (h : Run (step d endpointName env domain) always .init es s) :
    (es.count .publish = 0 → es = [] ∧ s = .init) ∧
    (es.count .publish = 1 → es = [.publish] ∧ s = ⟨[endpointName "GetUrlCountConsumer"], ∅⟩ ∨
      ∃ p db hash, es = [.publish, .consume p db] ∧ p ∈ d.processes ∧
        consume d env domain p db ∅ = .ok hash ∧ s = ⟨[], hash⟩) := by
  induction h with
  | nil => exact ⟨fun _ => ⟨rfl, rfl⟩, fun h => absurd h (by simp)⟩
  | @snoc es s t e _ _ hstep ih =>
    obtain ⟨ih0, ih1⟩ := ih
    cases e with
    | publish =>
      rw [List.count_append, List.count_singleton_self]
      refine ⟨fun h => absurd h (by omega), ?_⟩
      intro h
      obtain ⟨rfl, rfl⟩ := ih0 (by omega)
      obtain rfl := Option.some.inj hstep
      left
      refine ⟨rfl, ?_⟩
      simp [State.init, queues_eq]
    | consume p db =>
      have hcount : (es ++ [Event.consume p db]).count Event.publish = es.count Event.publish := by
        simp [List.count_append]
      obtain ⟨hp, hqueue, hash, hconsume, rfl⟩ := step_consume hstep
      rw [hcount]
      constructor
      · intro h
        obtain ⟨rfl, rfl⟩ := ih0 h
        cases hqueue
      · intro h
        rcases ih1 h with ⟨rfl, rfl⟩ | ⟨_, _, _, -, -, -, rfl⟩
        · right
          exact ⟨p, db, hash, rfl, hp, hconsume, by simp⟩
        · cases hqueue

/-- In every run one process handles the request. -/
theorem run_eq (h : Run (step d endpointName env domain) always .init es s)
    (hpublished : es.count .publish = 1) (hhandled : s.messages = []) :
    ∃ p db hash, es = [.publish, .consume p db] ∧ p ∈ d.processes ∧
      consume d env domain p db ∅ = .ok hash ∧ s = ⟨[], hash⟩ := by
  rcases (run_cases h).2 hpublished with ⟨-, rfl⟩ | hhandled'
  · cases hhandled
  · exact hhandled'

/-! ## What the counts show -/

/-- The loop that adds the shards. -/
theorem foldlM_add_none {shards : List ℤ} (hnodup : shards.Nodup) :
    ∃ counts : Dictionary ℤ (Option ℤ),
      shards.foldlM (fun (counts : Dictionary ℤ (Option ℤ)) shard => counts.add shard none) ∅ =
          .ret counts ∧
        ∀ r ∈ shards, counts.lookup r = some none := by
  have hkeys : (shards.map fun r => (⟨r, none⟩ : Σ _ : ℤ, Option ℤ)).reverse.NodupKeys := by
    show (List.map Sigma.fst _).Nodup
    rw [List.map_reverse, List.map_map, List.nodup_reverse]
    exact hnodup.map Function.injective_id
  have hadd := Dictionary.foldlM_add (d := ∅) (e := ⟨_, hkeys⟩) (List.append_nil _).symm
  rw [List.foldlM_map] at hadd
  refine ⟨⟨_, hkeys⟩, hadd, ?_⟩
  intro r hr
  exact AList.mem_lookup_iff.mpr (List.mem_reverse.mpr (List.mem_map_of_mem hr))

/-- With an empty hash no shard has a count. -/
theorem getAggregatedCounts_empty (d : Deployment) :
    ∃ counts, getAggregatedCounts d.shards ∅ = .ret counts ∧
      ∀ r ∈ d.shards, counts.lookup r = some none := by
  obtain ⟨counts, hloop, hlookup⟩ := foldlM_add_none d.nodup
  refine ⟨counts, ?_, hlookup⟩
  rw [getAggregatedCounts, hloop]
  rfl

/-- With one entry one shard has a count. -/
theorem getAggregatedCounts_singleton (d : Deployment) {shard : ℤ} (hvalid : IsInt64 shard) (n : ℤ) :
    ∃ counts, getAggregatedCounts d.shards (AList.insert (toString shard) n ∅) = .ret counts ∧
      ∀ r ∈ d.shards, counts.lookup r = some (if r = shard then some n else none) := by
  obtain ⟨counts, hloop, hlookup⟩ := foldlM_add_none d.nodup
  refine ⟨counts.insert shard (some n), ?_, ?_⟩
  · have hparse : parseShardId (toString shard) = .ret shard := by
      rw [parseShardId, tryParseInt64_toString hvalid]
    have hentries : (AList.insert (toString shard) n (∅ : Dictionary String ℤ)).entries =
        [⟨toString shard, n⟩] := AList.entries_insert
    have hget : getHashAll (AList.insert (toString shard) n ∅) =
        some (AList.insert (toString shard) n ∅) := by
      rw [getHashAll, hentries, if_neg (List.cons_ne_nil _ _)]
    rw [getAggregatedCounts, hloop, Exec.ret_bind, hget]
    show List.foldlM _ counts (AList.insert (toString shard) n (∅ : Dictionary String ℤ)).entries = _
    rw [hentries, List.foldlM_cons, hparse]
    rfl
  · intro r hr
    split_ifs with h
    · rw [h, AList.lookup_insert]
    · rw [AList.lookup_insert_ne h, hlookup r hr]

/-- What the process that receives the request does. -/
theorem consume_cases {hash hash' : Dictionary String ℤ}
    (h : consume d env domain p db hash = .ok hash') :
    d.isMaster p = false ∧ hash' = hash ∨
      d.isMaster p = true ∧ ∃ n : ℕ, urlCount env db domain = .ok n ∧
        hash' = hash.insert (toString p.shard) n := by
  unfold consume at h
  cases hmaster : d.isMaster p with
  | false =>
    rw [hmaster, if_pos (by simp)] at h
    exact .inl ⟨rfl, (Except.ok.inj h).symm⟩
  | true =>
    rw [hmaster, if_neg (by simp)] at h
    right
    refine ⟨rfl, ?_⟩
    cases hcount : urlCount env db domain with
    | error message =>
      rw [hcount] at h
      cases h
    | ok n =>
      rw [hcount] at h
      exact ⟨n, rfl, (Except.ok.inj h).symm⟩

/-- The counts after one process has handled the request. -/
theorem aggregated_consume_iff {hash : Dictionary String ℤ} (hp : p ∈ d.processes)
    (h : consume d env domain p db ∅ = .ok hash) :
    Aggregated d env domain [.publish, .consume p db] ⟨[], hash⟩ ↔
      d.shards.length = 1 ∧ d.isMaster p = true := by
  have hshard : p.shard ∈ d.shards := (mem_processes.mp hp).1
  rcases consume_cases h with ⟨hmaster, rfl⟩ | ⟨hmaster, n, hcount, rfl⟩
  · -- the request is dropped, and no shard has a count
    refine iff_of_false ?_ (by simp [hmaster])
    rintro ⟨counts, hcounts, hall⟩
    obtain ⟨counts', hcounts', hlookup⟩ := getAggregatedCounts_empty d
    obtain rfl := Exec.ret.inj (hcounts.symm.trans hcounts')
    obtain ⟨_, _, m, -, -, -, hsome⟩ := hall _ hshard
    rw [hlookup _ hshard] at hsome
    cases hsome
  · obtain ⟨counts, hcounts, hlookup⟩ := getAggregatedCounts_singleton d (d.valid _ hshard) n
    constructor
    · intro haggregated
      obtain ⟨counts', hcounts', hall⟩ := haggregated
      obtain rfl := Exec.ret.inj (hcounts.symm.trans hcounts')
      -- the other shards, if any, have no entry in the hash
      have honly : ∀ r ∈ d.shards, r = p.shard := by
        intro r hr
        obtain ⟨_, _, m, -, -, -, hsome⟩ := hall r hr
        rw [hlookup r hr] at hsome
        by_contra hne
        rw [if_neg hne] at hsome
        cases hsome
      refine ⟨?_, hmaster⟩
      have hreplicate := List.eq_replicate_of_mem honly
      have hnodup := d.nodup
      rw [hreplicate, List.nodup_replicate] at hnodup
      have hpos := List.length_pos_of_mem hshard
      omega
    · intro hone
      obtain ⟨r, hr⟩ := List.length_eq_one_iff.mp hone.1
      refine ⟨counts, hcounts, ?_⟩
      intro r' hr'
      have heq : r' = p.shard := by
        rw [hr] at hr' hshard
        rw [List.mem_singleton.mp hr', List.mem_singleton.mp hshard]
      refine ⟨p, db, n, by simp, heq.symm, hcount, ?_⟩
      rw [hlookup r' hr', if_pos heq]

/-- **Aggregation is complete** exactly on one shard whose master receives the request. -/
theorem aggregated_iff (h : Run (step d endpointName env domain) always .init es s)
    (hpublished : es.count .publish = 1) (hhandled : s.messages = []) :
    Aggregated d env domain es s ↔
      d.shards.length = 1 ∧ ∃ p db, .consume p db ∈ es ∧ d.isMaster p = true := by
  obtain ⟨p, db, hash, rfl, hp, hconsume, rfl⟩ := run_eq h hpublished hhandled
  rw [aggregated_consume_iff hp hconsume]
  constructor
  · intro hone
    exact ⟨hone.1, p, db, by simp, hone.2⟩
  · rintro ⟨hone, p', db', hmem, hmaster⟩
    have heq : p' = p := by
      simp only [List.mem_cons, reduceCtorEq, Event.consume.injEq, List.not_mem_nil, or_false,
        false_or] at hmem
      exact hmem.1
    exact ⟨hone, heq ▸ hmaster⟩

/-! ## One shard and two -/

/-- The shards, with one replica each. -/
def oneReplicaEach (shards : List ℤ) (nodup : shards.Nodup) (nonempty : shards ≠ [])
    (valid : ∀ r ∈ shards, IsInt64 r) : Deployment where
  shards := shards
  nodup := nodup
  nonempty := nonempty
  valid := valid
  replicas _ := 1
  master _ := 0
  master_lt _ _ := Nat.one_pos

/-- Shard 1, with one replica. -/
def oneShard : Deployment := oneReplicaEach [1] (by decide) (by decide) (by decide)

/-- Shards 1 and 2, with one replica each. -/
def twoShards : Deployment := oneReplicaEach [1, 2] (by decide) (by decide) (by decide)

/-- With one shard the count arrives. -/
theorem aggregated_iff_oneShard :
    ∃ s, Run (step oneShard id .invariantMode "example.com") always .init
        [.publish, .consume ⟨1, 0⟩ .init] s ∧
      Aggregated oneShard .invariantMode "example.com" [.publish, .consume ⟨1, 0⟩ .init] s := by
  have hrun : [Event.publish, Event.consume ⟨1, 0⟩ .init].foldlM
      (step oneShard id .invariantMode "example.com") .init =
        some ⟨[], AList.insert (toString (1 : ℤ)) 0 ∅⟩ := rfl
  refine ⟨_, run_iff_foldlM.mpr hrun, ?_⟩
  exact (aggregated_iff (run_iff_foldlM.mpr hrun) rfl rfl).mpr ⟨rfl, ⟨1, 0⟩, .init, by simp, rfl⟩

/-- With two shards one of them never sees the request. -/
theorem not_aggregated_twoShards :
    ∃ s, Run (step twoShards id .invariantMode "example.com") always .init
        [.publish, .consume ⟨1, 0⟩ .init] s ∧ s.messages = [] ∧
      ¬ Aggregated twoShards .invariantMode "example.com" [.publish, .consume ⟨1, 0⟩ .init] s := by
  have hrun : [Event.publish, Event.consume ⟨1, 0⟩ .init].foldlM
      (step twoShards id .invariantMode "example.com") .init =
        some ⟨[], AList.insert (toString (1 : ℤ)) 0 ∅⟩ := rfl
  refine ⟨_, run_iff_foldlM.mpr hrun, rfl, ?_⟩
  have hp : (⟨1, 0⟩ : Process) ∈ twoShards.processes := by decide
  rw [aggregated_consume_iff hp rfl]
  decide

end Shortener.Admin.Counts
