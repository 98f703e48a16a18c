import Shortener.DotNet.Exec

/-!
# Dictionaries

`Dictionary<TKey, TValue>` and JSON objects with integer members as association lists
with distinct keys (`AList`). The order of enumeration is unspecified in both, so only
the lookups carry meaning.

* `sum_increment`: counting one more occurrence adds one to the sum of the values.
* `ofEntries_entries`: adding the entries of a dictionary to a new one never throws and
  gives a copy with the same lookups (`lookup_reversed`).
-/

namespace Shortener.DotNet

/-- `Dictionary<TKey, TValue>`, as the list of its entries. -/
abbrev Dictionary (κ ν : Type) := AList fun _ : κ => ν

namespace Dictionary

variable {κ ν : Type}

/-- The sum of `f` over the values. -/
def sumOf (f : ν → ℤ) (d : Dictionary κ ν) : ℤ := (d.entries.map fun entry => f entry.2).sum

/-- The sum of the values. -/
def sum (d : Dictionary κ ℤ) : ℤ := d.sumOf id

@[simp] theorem sumOf_empty (f : ν → ℤ) : sumOf f (∅ : Dictionary κ ν) = 0 := rfl

@[simp] theorem sum_empty : sum (∅ : Dictionary κ ℤ) = 0 := rfl

@[simp] theorem sum_singleton (key : κ) (value : ℤ) :
    sum (AList.singleton key value : Dictionary κ ℤ) = value := by
  simp [sum, sumOf]

variable [DecidableEq κ]

/-- `Add`, which throws on a key that is present. -/
def add [ToString κ] (d : Dictionary κ ν) (key : κ) (value : ν) : Exec (Dictionary κ ν) :=
  if key ∈ d then
    .throw (.argument s!"An item with the same key has already been added. Key: {key}" none)
  else .ret (d.insert key value)

/-- `ToDictionary`, or a loop of `Add`. -/
def ofEntries [ToString κ] (entries : List (Σ _ : κ, ν)) : Exec (Dictionary κ ν) :=
  entries.foldlM (fun d entry => d.add entry.1 entry.2) ∅

/-- The same entries in the opposite order. -/
def reversed (d : Dictionary κ ν) : Dictionary κ ν :=
  ⟨d.entries.reverse, (List.perm_nodupKeys (List.reverse_perm d.entries)).mpr d.nodupKeys⟩

/-- The same keys with other values. -/
def map {ν' : Type} (f : ν → ν') (d : Dictionary κ ν) : Dictionary κ ν' :=
  ⟨d.entries.map (Sigma.map id fun _ => f), List.NodupKeys.map₂ (fun _ => f) d.entries d.nodupKeys⟩

/-- `if (!d.TryAdd(key, value)) d[key] += value`. -/
def addOrSum (d : Dictionary κ ℤ) (key : κ) (value : ℤ) : Dictionary κ ℤ :=
  match d.lookup key with
  | none => d.insert key value
  | some old => d.insert key (toInt32 (old + value))

/-- `addOrSum` for every entry of `e`. -/
def merge (d e : Dictionary κ ℤ) : Dictionary κ ℤ :=
  e.entries.foldl (fun d entry => d.addOrSum entry.1 entry.2) d

/-- `d || jsonb_build_object(key, COALESCE((d->>key)::int, 0) + 1)`. -/
def increment (d : Dictionary κ ℤ) (key : κ) : Dictionary κ ℤ :=
  d.insert key ((d.lookup key).getD 0 + 1)

/-- The entries whose keys satisfy `p`. -/
def filter (p : κ → Bool) (d : Dictionary κ ν) : Dictionary κ ν :=
  ⟨d.entries.filter fun entry => p entry.1, d.nodupKeys.sublist List.filter_sublist⟩

theorem add_eq_ret_iff [ToString κ] {d e : Dictionary κ ν} {key : κ} {value : ν} :
    d.add key value = .ret e ↔ key ∉ d ∧ d.insert key value = e := by
  unfold add
  split_ifs with h <;> simp [h]

@[simp] theorem lookup_reversed (d : Dictionary κ ν) (key : κ) :
    d.reversed.lookup key = d.lookup key :=
  AList.perm_lookup (List.reverse_perm d.entries)

@[simp] theorem lookup_map {ν' : Type} (f : ν → ν') (d : Dictionary κ ν) (key : κ) :
    (d.map f).lookup key = (d.lookup key).map f :=
  List.dlookup_map₂ key

/-- Adding entries whose keys are new and distinct puts each in front. -/
theorem foldlM_add [ToString κ] {entries : List (Σ _ : κ, ν)} {d e : Dictionary κ ν}
    (h : e.entries = entries.reverse ++ d.entries) :
    entries.foldlM (fun d entry => d.add entry.1 entry.2) d = .ret e := by
  induction entries generalizing d with
  | nil => exact congrArg Exec.ret (AList.ext h.symm)
  | cons entry entries ih =>
    have hnodup : (entry :: d.entries).NodupKeys := by
      have hsub : (entry :: d.entries).Sublist e.entries := by
        rw [h, List.reverse_cons, List.append_assoc]
        exact List.sublist_append_right _ _
      exact hsub.map Sigma.fst |>.nodup e.nodupKeys
    have hnot : entry.1 ∉ d := fun hmem =>
      (List.nodup_cons.mp hnodup).1 (AList.mem_keys.mp hmem)
    refine Exec.foldlM_cons_eq_ret_iff.mpr
      ⟨d.insert entry.1 entry.2, add_eq_ret_iff.mpr ⟨hnot, rfl⟩, ih ?_⟩
    rw [h, AList.insert_of_notMem hnot, List.reverse_cons, List.append_assoc]
    rfl

/-- A loop of `Add` that returns has put each entry in front. -/
theorem foldlM_add_eq_ret_iff [ToString κ] {entries : List (Σ _ : κ, ν)} {d e : Dictionary κ ν} :
    entries.foldlM (fun d entry => d.add entry.1 entry.2) d = .ret e ↔
      e.entries = entries.reverse ++ d.entries := by
  refine ⟨fun h => ?_, foldlM_add⟩
  induction entries generalizing d with
  | nil => exact congrArg AList.entries (Exec.ret.inj h).symm
  | cons entry entries ih =>
    obtain ⟨d', hadd, hrest⟩ := Exec.foldlM_cons_eq_ret_iff.mp h
    obtain ⟨hnot, rfl⟩ := add_eq_ret_iff.mp hadd
    rw [ih hrest, AList.insert_of_notMem hnot, List.reverse_cons, List.append_assoc]
    rfl

/-- It returns if no key comes twice. -/
theorem foldlM_add_returns_iff [ToString κ] {entries : List (Σ _ : κ, ν)} {d : Dictionary κ ν} :
    (entries.foldlM (fun (d : Dictionary κ ν) entry => d.add entry.1 entry.2) d).Returns ↔
      (entries.reverse ++ d.entries).NodupKeys := by
  constructor
  · intro h
    obtain ⟨e, he⟩ := h
    rw [← foldlM_add_eq_ret_iff.mp he]
    exact e.nodupKeys
  · intro h
    exact ⟨⟨_, h⟩, foldlM_add rfl⟩

theorem ofEntries_entries [ToString κ] (d : Dictionary κ ν) :
    ofEntries d.entries = .ret d.reversed :=
  foldlM_add (List.append_nil _).symm

theorem lookup_entry {d : Dictionary κ ν} {entry : Σ _ : κ, ν} (h : entry ∈ d.entries) :
    d.lookup entry.1 = some entry.2 :=
  AList.mem_lookup_iff.mpr h

theorem eq_empty_of_lookup {d : Dictionary κ ν} (h : ∀ key, d.lookup key = none) : d = ∅ := by
  refine AList.ext (List.eq_nil_iff_forall_not_mem.mpr fun entry hentry => ?_)
  have hsome := lookup_entry hentry
  rw [h] at hsome
  cases hsome

/-- What holds of all values still does with one more of them. -/
theorem forall_insert {P : κ → ν → Prop} {d : Dictionary κ ν} {key : κ} {value : ν}
    (h : ∀ k, ∀ v ∈ d.lookup k, P k v) (hvalue : P key value) :
    ∀ k, ∀ v ∈ (d.insert key value).lookup k, P k v := by
  intro k v hv
  by_cases hk : k = key
  · subst hk
    rw [AList.lookup_insert] at hv
    rwa [← Option.some.inj hv]
  · rw [AList.lookup_insert_ne hk] at hv
    exact h k v hv

theorem forall_erase {P : κ → ν → Prop} {d : Dictionary κ ν} (key : κ)
    (h : ∀ k, ∀ v ∈ d.lookup k, P k v) : ∀ k, ∀ v ∈ (d.erase key).lookup k, P k v := by
  intro k v hv
  by_cases hk : k = key
  · rw [hk, AList.lookup_erase] at hv
    cases hv
  · rw [AList.lookup_erase_ne hk] at hv
    exact h k v hv

theorem lookup_filter (p : κ → Bool) (d : Dictionary κ ν) (key : κ) :
    (d.filter p).lookup key = if p key then d.lookup key else none := by
  refine Option.ext fun value => ?_
  have hmem : value ∈ (d.filter p).lookup key ↔ value ∈ d.lookup key ∧ p key := by
    rw [AList.mem_lookup_iff, AList.mem_lookup_iff]
    exact List.mem_filter
  rw [Option.mem_def, Option.mem_def] at hmem
  split_ifs with hp <;> simp [hmem, hp]

/-- A sum depends on the lookups only. -/
theorem sumOf_congr {d e : Dictionary κ ν} (h : ∀ key, d.lookup key = e.lookup key) (f : ν → ℤ) :
    d.sumOf f = e.sumOf f := by
  have hperm : d.entries.Perm e.entries :=
    List.lookup_ext d.nodupKeys e.nodupKeys fun key value => by
      rw [show d.entries.dlookup key = e.entries.dlookup key from h key]
  exact (hperm.map _).sum_eq

/-- Only the keys that are there matter. -/
theorem lookup_filter_congr {d : Dictionary κ ν} {p q : κ → Bool} (h : ∀ key ∈ d, p key = q key)
    (key : κ) : (d.filter p).lookup key = (d.filter q).lookup key := by
  rw [lookup_filter, lookup_filter]
  by_cases hkey : key ∈ d
  · rw [h key hkey]
  · rw [AList.lookup_eq_none.mpr hkey, ite_self, ite_self]

/-- Dictionaries with related entries have related lookups. -/
theorem lookup_rel {ι : Type} {R : ν → ν → Prop} {d e : Dictionary κ ν} {l : List ι}
    {f g : ι → Σ _ : κ, ν} (hd : d.entries.Perm (l.map f)) (he : e.entries.Perm (l.map g))
    (h : ∀ i ∈ l, (f i).1 = (g i).1 ∧ R (f i).2 (g i).2) (key : κ) :
    Option.Rel R (d.lookup key) (e.lookup key) := by
  have hf : ∀ i ∈ l, d.lookup (f i).1 = some (f i).2 := fun i hi =>
    lookup_entry (hd.symm.subset (List.mem_map_of_mem hi))
  have hg : ∀ i ∈ l, e.lookup (f i).1 = some (g i).2 := fun i hi =>
    (h i hi).1 ▸ lookup_entry (he.symm.subset (List.mem_map_of_mem hi))
  by_cases hkey : ∃ i ∈ l, (f i).1 = key
  · obtain ⟨i, hi, rfl⟩ := hkey
    rw [hf i hi, hg i hi]
    exact .some (h i hi).2
  · have hnone : ∀ {d : Dictionary κ ν} {k : ι → Σ _ : κ, ν}, d.entries.Perm (l.map k) →
        (∀ i ∈ l, (f i).1 = (k i).1) → d.lookup key = none := by
      intro d k hperm hk
      rw [Option.eq_none_iff_forall_ne_some]
      intro value hvalue
      obtain ⟨i, hi, heq⟩ := List.mem_map.mp (hperm.subset (AList.mem_lookup_iff.mp hvalue))
      exact hkey ⟨i, hi, (hk i hi).trans (congrArg Sigma.fst heq)⟩
    rw [hnone hd fun i _ => rfl, hnone he fun i hi => (h i hi).1]
    exact .none

@[simp] theorem mem_increment {d : Dictionary κ ℤ} {key k : κ} :
    k ∈ d.increment key ↔ k = key ∨ k ∈ d := by
  rw [increment, AList.mem_insert]

/-- A loop that adds each entry to one part `g` of a state merges it into this part. -/
theorem foldl_addOrSum {σ : Type} {f : σ → (Σ _ : κ, ℤ) → σ} {g : Dictionary κ ℤ → σ}
    (h : ∀ d entry, f (g d) entry = g (d.addOrSum entry.1 entry.2)) (d e : Dictionary κ ℤ) :
    e.entries.foldl f (g d) = g (d.merge e) := by
  unfold merge
  induction e.entries generalizing d with
  | nil => rfl
  | cons entry entries ih => rw [List.foldl_cons, List.foldl_cons, h, ih]

theorem sumOf_eq_erase (f : ν → ℤ) (d : Dictionary κ ν) (key : κ) :
    d.sumOf f = (d.lookup key).elim 0 f + sumOf f (d.erase key) := by
  by_cases h : key ∈ d
  · obtain ⟨value, l₁, l₂, hnot, hd, hk⟩ := List.exists_of_kerase (AList.mem_keys.mp h)
    have hlookup : d.lookup key = some value :=
      (List.mem_dlookup_iff d.nodupKeys).mpr (hd ▸ by simp)
    rw [hlookup, sumOf, sumOf, show (d.erase key).entries = l₁ ++ l₂ from hk, hd]
    simp only [List.map_append, List.map_cons, List.sum_append, List.sum_cons, Option.elim_some]
    ring
  · have herase : d.erase key = d := AList.ext (List.kerase_of_notMem_keys (mt AList.mem_keys.mpr h))
    rw [AList.lookup_eq_none.mpr h, herase, Option.elim_none, zero_add]

theorem sumOf_insert (f : ν → ℤ) (d : Dictionary κ ν) (key : κ) (value : ν) :
    sumOf f (d.insert key value) = f value + sumOf f (d.erase key) := by
  rw [sumOf, AList.entries_insert, List.map_cons, List.sum_cons]
  rfl

/-- Adding an entry adds its value. -/
theorem sumOf_insert_new (f : ν → ℤ) {d : Dictionary κ ν} {key : κ} (h : d.lookup key = none)
    (value : ν) : sumOf f (d.insert key value) = d.sumOf f + f value := by
  rw [sumOf_insert, sumOf_eq_erase f d key, h, Option.elim_none]
  ring

/-- Replacing an entry changes the sum by the difference. -/
theorem sumOf_insert_old (f : ν → ℤ) {d : Dictionary κ ν} {key : κ} {old : ν}
    (h : d.lookup key = some old) (value : ν) :
    sumOf f (d.insert key value) = d.sumOf f + (f value - f old) := by
  rw [sumOf_insert, sumOf_eq_erase f d key, h, Option.elim_some]
  ring

theorem sum_increment (d : Dictionary κ ℤ) (key : κ) : (d.increment key).sum = d.sum + 1 := by
  cases h : d.lookup key with
  | none =>
    rw [sum, sum, increment, h, sumOf_insert_new id h]
    rfl
  | some old =>
    rw [sum, sum, increment, h, sumOf_insert_old id h]
    simp only [Option.getD_some, id]
    ring

/-- Counting a key counts for the filters that let it through. -/
theorem sum_filter_increment (p : κ → Bool) (d : Dictionary κ ℤ) (key : κ) :
    ((d.increment key).filter p).sum = (d.filter p).sum + if p key then 1 else 0 := by
  by_cases hp : p key
  · have hlookup : ∀ k, ((d.increment key).filter p).lookup k = ((d.filter p).increment key).lookup k := by
      intro k
      by_cases hk : k = key
      · subst hk
        rw [lookup_filter, if_pos hp, increment, increment, AList.lookup_insert, AList.lookup_insert,
          lookup_filter, if_pos hp]
      · rw [lookup_filter, increment, increment, AList.lookup_insert_ne hk, AList.lookup_insert_ne hk,
          lookup_filter]
    rw [sum, sumOf_congr hlookup, if_pos hp]
    exact sum_increment _ _
  · have hlookup : ∀ k, ((d.increment key).filter p).lookup k = (d.filter p).lookup k := by
      intro k
      rw [lookup_filter, lookup_filter]
      by_cases hk : k = key
      · rw [hk, if_neg hp, if_neg hp]
      · rw [increment, AList.lookup_insert_ne hk]
    rw [sum, sumOf_congr hlookup, if_neg hp, add_zero]
    rfl

end Dictionary

end Shortener.DotNet
