import Mathlib

/-!
# Bounded channels

`Channel.CreateBounded` with `BoundedChannelFullMode.Wait` and one reader. A write
on a full channel waits, in order of arrival, until a read makes room; a read on an
empty channel waits for the next write, which hands its item over.

* `write_pending` and `read_pending`: items leave in the order in which their
  writes were called, also those of writes that had to wait.
* `writers_write` and `writers_read`: which calls wait after an operation.
-/

namespace Shortener.DotNet

variable {c : ℕ} {ω α : Type*}

/-- A channel of capacity `c`; `ω` names the callers of `WriteAsync`. -/
structure Channel (c : ℕ) (ω α : Type*) where
  items : List α
  /-- the calls of `WriteAsync` that wait for room, oldest first -/
  writers : List (ω × α)
  /-- a call of `ReadAsync` waits for an item -/
  reader : Bool
  length_le : items.length ≤ c
  full : writers ≠ [] → items.length = c
  empty : reader = true → items = [] ∧ writers = []

namespace Channel

/-- A new channel. -/
def create (c : ℕ) : Channel c ω α := ⟨[], [], false, by simp, by simp, by simp⟩

/-- `WriteAsync`, with the item it hands to a waiting reader. -/
def write (ch : Channel c ω α) (w : ω) (a : α) : Channel c ω α × Option α :=
  if ch.reader = true then (create c, some a)
  else if h : ch.items.length < c then
    (⟨ch.items ++ [a], ch.writers, false, by simpa using h, fun hw => by
      have := ch.full hw
      omega, by simp⟩, none)
  else
    (⟨ch.items, ch.writers ++ [(w, a)], false, ch.length_le, fun _ => by
      have := ch.length_le
      omega, by simp⟩, none)

/-- `ReadAsync`, with the item it returns unless it has to wait. -/
def read [NeZero c] (ch : Channel c ω α) : Channel c ω α × Option α :=
  match hi : ch.items, hw : ch.writers with
  | [], _ =>
    (⟨[], [], true, by simp, by simp, by simp⟩, none)
  | a :: items, [] =>
    (⟨items, [], false, by have := ch.length_le; simp [hi] at this; omega, by simp, by simp⟩, some a)
  | a :: items, (_, b) :: writers =>
    (⟨items ++ [b], writers, false, by have := ch.length_le; simpa [hi] using this,
      fun _ => by have := ch.full (by simp [hw]); simpa [hi] using this, by simp⟩, some a)

/-- The items in the channel or in waiting writes, in the order in which they leave. -/
def pending (ch : Channel c ω α) : List α := ch.items ++ ch.writers.map Prod.snd

@[simp] theorem pending_create : (create c : Channel c ω α).pending = [] := rfl

@[simp] theorem writers_create : (create c : Channel c ω α).writers = [] := rfl

@[simp] theorem items_create : (create c : Channel c ω α).items = [] := rfl

@[simp] theorem reader_create : (create c : Channel c ω α).reader = false := rfl

theorem writers_nil_of_items_nil [NeZero c] {ch : Channel c ω α} (h : ch.items = []) :
    ch.writers = [] := by
  by_contra hw
  have := ch.full hw
  rw [h, List.length_nil] at this
  exact NeZero.ne c this.symm

/-- **First in, first out**, for writes. -/
theorem write_pending (ch : Channel c ω α) (w : ω) (a : α) :
    (ch.write w a).2.toList ++ (ch.write w a).1.pending = ch.pending ++ [a] := by
  unfold write
  split_ifs with hr hlt
  · obtain ⟨hi, hw⟩ := ch.empty hr
    simp [pending, hi, hw]
  · have hw : ch.writers = [] := by
      by_contra hw
      have := ch.full hw
      omega
    simp [pending, hw]
  · simp [pending]

/-- **First in, first out**, for reads. -/
theorem read_pending [NeZero c] (ch : Channel c ω α) :
    ch.read.2.toList ++ ch.read.1.pending = ch.pending := by
  unfold read
  split
  · rename_i hi
    simp [pending, hi, writers_nil_of_items_nil hi]
  · rename_i hi hw
    simp [pending, hi, hw]
  · rename_i hi hw
    simp [pending, hi, hw]

/-- A write waits exactly on a full channel. -/
theorem writers_write (ch : Channel c ω α) (w : ω) (a : α) :
    (ch.write w a).1.writers =
      if ch.reader = true ∨ ch.items.length < c then ch.writers else ch.writers ++ [(w, a)] := by
  unfold write
  by_cases hr : ch.reader = true
  · simp [hr, (ch.empty hr).2]
  · by_cases hlt : ch.items.length < c <;> simp [hr, hlt]

/-- A write that waits leaves the buffer as it is. -/
theorem items_write_of_full {ch : Channel c ω α} (h : ch.items.length = c) (hr : ch.reader = false)
    (w : ω) (a : α) : (ch.write w a).1.items = ch.items := by
  unfold write
  rw [if_neg (by simp [hr]), dif_neg (by omega)]

theorem write_snd (ch : Channel c ω α) (w : ω) (a : α) :
    (ch.write w a).2 = if ch.reader = true then some a else none := by
  unfold write
  split_ifs <;> rfl

@[simp] theorem reader_write (ch : Channel c ω α) (w : ω) (a : α) :
    (ch.write w a).1.reader = false := by
  unfold write
  split_ifs <;> rfl

theorem writers_read [NeZero c] (ch : Channel c ω α) : ch.read.1.writers = ch.writers.tail := by
  unfold read
  split
  · rename_i hi
    simp [writers_nil_of_items_nil hi]
  · rename_i hw
    simp [hw]
  · rename_i hw
    simp [hw]

theorem reader_read [NeZero c] (ch : Channel c ω α) :
    ch.read.1.reader = true ↔ ch.read.2 = none := by
  unfold read
  split <;> simp

end Channel

end Shortener.DotNet
