import Shortener.DotNet.Dictionary

/-!
# Dictionaries of counters

`addOrSum` adds to a counter or puts a new one in. As a function from keys to counters that
may be absent, a dictionary is an element of a commutative monoid, and `addOrSum` and `merge`
are its addition. So what a dictionary holds after any number of them depends neither on their
order nor on how they are grouped.

* `counts_addOrSum`, `counts_merge`: the two operations as additions.
* `value_sum`: the value of a sum of counters is the sum of their values, as an `int`.
* `merge_exact`: the values of non-negative counters add up, as long as they fit an `int`.
-/

namespace Shortener.DotNet

/-- An `int` under unchecked addition. -/
@[ext] structure Wrapped where
  value : ℤ

namespace Wrapped

instance : Add Wrapped := ⟨fun a b => ⟨toInt32 (a.value + b.value)⟩⟩

theorem value_add (a b : Wrapped) : (a + b).value = toInt32 (a.value + b.value) := rfl

instance : AddCommSemigroup Wrapped where
  add_assoc a b c := by
    ext
    simp only [value_add]
    rw [toInt32_add_toInt32, add_comm a.value (toInt32 _), toInt32_add_toInt32]
    congr 1
    ring
  add_comm a b := by
    ext
    simp only [value_add, add_comm]

end Wrapped

/-- A counter that may be absent. -/
abbrev Count := WithZero Wrapped

namespace Count

/-- The value, 0 if absent. -/
def value (count : Count) : ℤ := Option.elim (count : Option Wrapped) 0 Wrapped.value

@[simp] theorem value_zero : value 0 = 0 := rfl

@[simp] theorem value_coe (w : Wrapped) : value (w : Count) = w.value := rfl

/-- Addition in `int`s. -/
theorem value_add {a b : Count} (ha : IsInt32 a.value) (hb : IsInt32 b.value) :
    (a + b).value = toInt32 (a.value + b.value) := by
  cases a with
  | none =>
    show value (0 + b) = toInt32 (0 + b.value)
    rw [zero_add, zero_add, toInt32_of_isInt32 hb]
  | some x =>
    cases b with
    | none =>
      show value ((x : Count) + 0) = toInt32 (x.value + 0)
      rw [add_zero, add_zero]
      exact (toInt32_of_isInt32 ha).symm
    | some y => rfl

/-- The value of a sum, as an `int`. -/
theorem value_sum {counts : List Count} (h : ∀ count ∈ counts, IsInt32 count.value) :
    counts.sum.value = toInt32 (counts.map value).sum := by
  induction counts with
  | nil => rfl
  | cons count counts ih =>
    obtain ⟨hcount, hcounts⟩ := List.forall_mem_cons.mp h
    have hsum := ih hcounts
    have hint : IsInt32 counts.sum.value := by
      rw [hsum]
      exact isInt32_toInt32 _
    rw [List.sum_cons, value_add hcount hint, hsum, add_comm, toInt32_add_toInt32, List.map_cons,
      List.sum_cons, add_comm]

end Count

namespace Dictionary

variable {κ : Type} [DecidableEq κ]

/-- The counter of each key. -/
def counts (d : Dictionary κ ℤ) (key : κ) : Count := ((d.lookup key).map Wrapped.mk : Option Wrapped)

@[simp] theorem counts_empty : counts (∅ : Dictionary κ ℤ) = 0 := rfl

theorem value_counts (d : Dictionary κ ℤ) (key : κ) :
    (d.counts key).value = (d.lookup key).getD 0 := by
  unfold counts Count.value
  cases d.lookup key <;> rfl

theorem counts_inj {d e : Dictionary κ ℤ} {key : κ} :
    d.counts key = e.counts key ↔ d.lookup key = e.lookup key := by
  refine ⟨fun h => ?_, fun h => by rw [counts, counts, h]⟩
  exact Option.map_injective (fun a b hab => congrArg Wrapped.value hab) h

/-- A counter for one key. -/
def single (key : κ) (value : ℤ) : κ → Count := Pi.single key ((⟨value⟩ : Wrapped) : Count)

theorem counts_addOrSum (d : Dictionary κ ℤ) (key : κ) (value : ℤ) :
    (d.addOrSum key value).counts = d.counts + single key value := by
  funext k
  rw [Pi.add_apply, single, addOrSum]
  by_cases hk : k = key
  · subst hk
    rw [Pi.single_eq_same, counts, counts]
    cases hlookup : d.lookup k with
    | none => rw [AList.lookup_insert]; rfl
    | some old => rw [AList.lookup_insert]; rfl
  · rw [Pi.single_eq_of_ne hk, add_zero, counts, counts]
    cases d.lookup key with
    | none => rw [AList.lookup_insert_ne hk]
    | some old => rw [AList.lookup_insert_ne hk]

/-- The counters of entries with distinct keys. -/
theorem counts_eq_sum (d : Dictionary κ ℤ) :
    d.counts = (d.entries.map fun entry => single entry.1 entry.2).sum := by
  obtain ⟨entries, hnodup⟩ := d
  induction entries with
  | nil => rfl
  | cons entry entries ih =>
    obtain ⟨hnot, hrest⟩ := List.nodupKeys_cons.mp hnodup
    rw [List.map_cons, List.sum_cons, ← ih hrest]
    funext k
    rw [Pi.add_apply, single]
    by_cases hk : k = entry.1
    · subst hk
      have hnone : counts ⟨entries, hrest⟩ entry.1 = 0 := by
        unfold counts
        rw [AList.lookup_eq_none.mpr hnot]
        rfl
      rw [Pi.single_eq_same, hnone, add_zero]
      unfold counts
      rw [show AList.lookup entry.1 ⟨entry :: entries, hnodup⟩ = some entry.2 from
        List.dlookup_cons_eq _ _ _]
      rfl
    · rw [Pi.single_eq_of_ne hk, zero_add]
      unfold counts
      rw [show AList.lookup k ⟨entry :: entries, hnodup⟩ = AList.lookup k ⟨entries, hrest⟩ from
        List.dlookup_cons_ne _ _ hk]

theorem counts_merge (d e : Dictionary κ ℤ) : (d.merge e).counts = d.counts + e.counts := by
  rw [counts_eq_sum e, merge]
  induction e.entries generalizing d with
  | nil => rw [List.map_nil, List.sum_nil, add_zero]; rfl
  | cons entry entries ih =>
    rw [List.foldl_cons, ih, counts_addOrSum, List.map_cons, List.sum_cons, add_assoc]

/-! ## Sums of the values -/

/-- No counter is negative. -/
def Nonneg (d : Dictionary κ ℤ) : Prop := ∀ key, ∀ value ∈ d.lookup key, 0 ≤ value

theorem nonneg_empty : Nonneg (∅ : Dictionary κ ℤ) := fun _ _ h => nomatch h

variable {d e : Dictionary κ ℤ}

theorem Nonneg.insert (h : d.Nonneg) {key : κ} {value : ℤ} (hvalue : 0 ≤ value) :
    Nonneg (d.insert key value) :=
  forall_insert h hvalue

theorem Nonneg.erase (h : d.Nonneg) (key : κ) : Nonneg (d.erase key) :=
  forall_erase key h

/-- The values one after the other. -/
theorem Nonneg.entries (h : d.Nonneg) : ∀ entry ∈ d.entries, 0 ≤ entry.2 := by
  intro entry hentry
  exact h entry.1 entry.2 (lookup_entry hentry)

theorem Nonneg.sum_nonneg (h : d.Nonneg) : 0 ≤ d.sum :=
  List.sum_nonneg (List.forall_mem_map.mpr h.entries)

/-- A counter is at most the sum. -/
theorem Nonneg.lookup_le (h : d.Nonneg) {key : κ} {value : ℤ} (hvalue : d.lookup key = some value) :
    value ≤ d.sum := by
  have hrest := (h.erase key).sum_nonneg
  rw [sum, sumOf_eq_erase id d key, hvalue, Option.elim_some]
  exact le_add_of_nonneg_right hrest

theorem addOrSum_exact (h : d.Nonneg) {key : κ} {value : ℤ} (hvalue : 0 ≤ value)
    (hsmall : d.sum + value < 2 ^ 31) :
    (d.addOrSum key value).Nonneg ∧ (d.addOrSum key value).sum = d.sum + value := by
  unfold addOrSum
  split
  · rename_i hnone
    exact ⟨h.insert hvalue, sumOf_insert_new id hnone value⟩
  · rename_i old hold
    have hle := h.lookup_le hold
    have hnonneg := h key old hold
    rw [toInt32_of_isInt32 ⟨by omega, by omega⟩]
    refine ⟨h.insert (by omega), ?_⟩
    rw [sum, sumOf_insert_old id hold]
    show d.sum + (old + value - old) = d.sum + value
    ring

/-- The loop of `merge`. -/
theorem foldl_addOrSum_exact {entries : List (Σ _ : κ, ℤ)} (hd : d.Nonneg)
    (hentries : ∀ entry ∈ entries, 0 ≤ entry.2)
    (hsmall : d.sum + (entries.map Sigma.snd).sum < 2 ^ 31) :
    (entries.foldl (fun d entry => d.addOrSum entry.1 entry.2) d).Nonneg ∧
      (entries.foldl (fun d entry => d.addOrSum entry.1 entry.2) d).sum =
        d.sum + (entries.map Sigma.snd).sum := by
  induction entries generalizing d with
  | nil => exact ⟨hd, (add_zero _).symm⟩
  | cons entry entries ih =>
    obtain ⟨hentry, hrest⟩ := List.forall_mem_cons.mp hentries
    have hpos : 0 ≤ (entries.map Sigma.snd).sum := List.sum_nonneg (List.forall_mem_map.mpr hrest)
    rw [List.map_cons, List.sum_cons] at hsmall ⊢
    obtain ⟨hd', hsum⟩ : (d.addOrSum entry.1 entry.2).Nonneg ∧
        (d.addOrSum entry.1 entry.2).sum = d.sum + entry.2 := addOrSum_exact hd hentry (by omega)
    obtain ⟨hmerge, hsum'⟩ := ih hd' hrest (by omega)
    refine ⟨hmerge, ?_⟩
    rw [List.foldl_cons, hsum', hsum, add_assoc]

theorem merge_exact (hd : d.Nonneg) (he : e.Nonneg) (hsmall : d.sum + e.sum < 2 ^ 31) :
    (d.merge e).Nonneg ∧ (d.merge e).sum = d.sum + e.sum :=
  foldl_addOrSum_exact hd he.entries hsmall

end Dictionary

end Shortener.DotNet
