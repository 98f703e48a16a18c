import Mathlib

/-!
# Sets

`HashSet<T>` as the list of its items without duplicates. A set from which nothing is removed
is enumerated in the order in which the items came.

* `mem_foldl_add`: what a loop of `Add` puts into a set.
* `toFinset_add`: `Add` on finite sets.
-/

namespace Shortener.DotNet

/-- `HashSet<T>`, as the list of its items. -/
structure HashSet (α : Type*) where
  items : List α
  nodup : items.Nodup

namespace HashSet

variable {α : Type*}

/-- `[]`. -/
def empty : HashSet α := ⟨[], List.nodup_nil⟩

/-- `Where`. -/
def filter (p : α → Bool) (s : HashSet α) : List α := s.items.filter p

variable [DecidableEq α]

/-- `Contains`. -/
def contains (s : HashSet α) (a : α) : Bool := s.items.contains a

/-- `Add`, of which nothing reads the result. -/
def add (s : HashSet α) (a : α) : HashSet α :=
  if h : a ∈ s.items then s
  else ⟨s.items ++ [a], List.Nodup.append s.nodup (List.nodup_singleton a)
    (List.disjoint_singleton.mpr h)⟩

/-- The items. -/
def toFinset (s : HashSet α) : Finset α := s.items.toFinset

@[simp] theorem contains_iff {s : HashSet α} {a : α} : s.contains a = true ↔ a ∈ s.items := by
  unfold contains
  exact List.contains_iff_mem

@[simp] theorem contains_eq_false_iff {s : HashSet α} {a : α} :
    s.contains a = false ↔ a ∉ s.items := by
  rw [← contains_iff, Bool.not_eq_true]

@[simp] theorem mem_toFinset {s : HashSet α} {a : α} : a ∈ s.toFinset ↔ a ∈ s.items :=
  List.mem_toFinset

@[simp] theorem mem_add {s : HashSet α} {a b : α} : b ∈ (s.add a).items ↔ b = a ∨ b ∈ s.items := by
  unfold add
  split_ifs with h
  · constructor
    · exact Or.inr
    · rintro (rfl | hb)
      · exact h
      · exact hb
  · rw [List.mem_append, List.mem_singleton, or_comm]

/-- A loop of `Add`. -/
theorem mem_foldl_add {l : List α} {s : HashSet α} {b : α} :
    b ∈ (l.foldl add s).items ↔ b ∈ l ∨ b ∈ s.items := by
  induction l generalizing s with
  | nil => simp
  | cons a l ih =>
    rw [List.foldl_cons, ih, mem_add, List.mem_cons, or_assoc]
    exact or_left_comm

@[simp] theorem toFinset_empty : (empty : HashSet α).toFinset = ∅ := rfl

@[simp] theorem toFinset_add (s : HashSet α) (a : α) : (s.add a).toFinset = insert a s.toFinset := by
  ext b
  rw [mem_toFinset, mem_add, Finset.mem_insert, mem_toFinset]

end HashSet

end Shortener.DotNet
