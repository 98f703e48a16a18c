import Mathlib

/-!
# Sliding windows

A limiter sees events, each with a key and a time, and admits an event only if every rule
still has room: fewer than `max` events with the same key were admitted in the window that
ends with the event. Windows are open on the left.

* `Room.bound`: if each event of a log came when its window had room, no window, wherever it
  ends, holds more than `max` events.
* `window_bound`: so it is with the events that are admitted.
-/

namespace Shortener.Common.SlidingWindow

variable {κ τ : Type*}

/-- At most `max` events are admitted in a window. -/
structure Rule (τ : Type*) where
  window : τ
  max : ℤ

section

variable [DecidableEq κ] [LinearOrder τ] [AddCommGroup τ]

/-- The events with key `k` in the window that ends with `t`. -/
def inWindow (k : κ) (window t : τ) (events : List (κ × τ)) : List (κ × τ) :=
  events.filter fun e => e.1 = k ∧ t - window < e.2 ∧ e.2 ≤ t

/-- Every rule has room for the event. -/
def admits (rules : List (Rule τ)) (log : List (κ × τ)) (e : κ × τ) : Bool :=
  rules.all fun rule => (inWindow e.1 rule.window e.2 log).length < rule.max

/-- The log after one more event. -/
def offer (rules : List (Rule τ)) (log : List (κ × τ)) (e : κ × τ) : List (κ × τ) :=
  if admits rules log e then log ++ [e] else log

/-- The events that are admitted. -/
def admitted (rules : List (Rule τ)) (events : List (κ × τ)) : List (κ × τ) :=
  events.foldl (offer rules) []

variable {rules : List (Rule τ)} {rule : Rule τ} {events log : List (κ × τ)} {e : κ × τ} {k : κ}
  {t window : τ}

@[simp] theorem admitted_nil : admitted rules ([] : List (κ × τ)) = [] := rfl

theorem admitted_snoc : admitted rules (events ++ [e]) = offer rules (admitted rules events) e := by
  simp [admitted, List.foldl_append]

theorem admits_iff : admits rules log e = true ↔
    ∀ rule ∈ rules, ((inWindow e.1 rule.window e.2 log).length : ℤ) < rule.max := by
  simp [admits, List.all_eq_true]

theorem admitted_sublist : (admitted rules events).Sublist events := by
  induction events using List.reverseRecOn with
  | nil => exact .slnil
  | append_singleton events e ih =>
    rw [admitted_snoc, offer]
    split_ifs
    · exact ih.append_right [e]
    · exact ih.trans (List.sublist_append_left _ _)

theorem inWindow_append (events' : List (κ × τ)) :
    inWindow k window t (events ++ events') =
      inWindow k window t events ++ inWindow k window t events' := List.filter_append ..

variable [IsOrderedAddMonoid τ]

/-- If the window at `t` reaches an event `e` later than all others, it holds no more of the
    others than the window at `e`. -/
theorem inWindow_length_le (k : κ) (window : τ) (hlog : ∀ e' ∈ log, e'.2 ≤ e.2) (ht : e.2 ≤ t) :
    (inWindow k window t log).length ≤ (inWindow k window e.2 log).length := by
  rw [inWindow, inWindow, ← List.countP_eq_length_filter, ← List.countP_eq_length_filter]
  apply List.countP_mono_left
  intro e' he' h
  obtain ⟨hk, hlow, -⟩ := of_decide_eq_true h
  have hwindow : e.2 - window ≤ t - window := sub_le_sub_right ht window
  exact decide_eq_true ⟨hk, hwindow.trans_lt hlow, hlog e' he'⟩

/-- Each event of the log came when its window had room. -/
inductive Room (window : τ) (max : ℤ) : List (κ × τ) → Prop
  | nil : Room window max []
  | snoc {log : List (κ × τ)} {e : κ × τ} :
      Room window max log → ((inWindow e.1 window e.2 log).length : ℤ) < max →
      Room window max (log ++ [e])

/-- **No window holds more than `max`.** -/
theorem Room.bound {max : ℤ} (h : Room window max log) (hmax : 0 ≤ max)
    (hmono : (log.map Prod.snd).Pairwise (· ≤ ·)) (k : κ) (t : τ) :
    ((inWindow k window t log).length : ℤ) ≤ max := by
  induction h with
  | nil => simpa [inWindow] using hmax
  | @snoc log e _ hroom ih =>
    rw [List.map_append, List.pairwise_append] at hmono
    obtain ⟨hevents, -, hlast⟩ := hmono
    have hlog : ∀ e' ∈ log, e'.2 ≤ e.2 := fun e' he' =>
      hlast e'.2 (List.mem_map_of_mem he') e.2 (by simp)
    rw [inWindow_append, List.length_append]
    by_cases he : e.1 = k ∧ t - window < e.2 ∧ e.2 ≤ t
    · -- the window reaches `e`, and there was room when `e` came
      obtain ⟨rfl, -, ht⟩ := he
      have hle := inWindow_length_le e.1 window hlog ht
      have hone : (inWindow e.1 window t [e]).length ≤ 1 := List.length_filter_le _ _
      omega
    · have hnone : inWindow k window t [e] = [] := List.filter_eq_nil_iff.mpr (by simpa using he)
      rw [hnone, List.length_nil]
      exact ih hevents

omit [IsOrderedAddMonoid τ] in
theorem room_admitted (hrule : rule ∈ rules) (events : List (κ × τ)) :
    Room rule.window rule.max (admitted rules events) := by
  induction events using List.reverseRecOn with
  | nil => exact .nil
  | append_singleton events e ih =>
    rw [admitted_snoc, offer]
    split_ifs with hadmits
    · exact ih.snoc (admits_iff.mp hadmits rule hrule)
    · exact ih

/-- No window of a rule holds more admitted events than the rule says. -/
theorem window_bound (hmono : (events.map Prod.snd).Pairwise (· ≤ ·)) (hrule : rule ∈ rules)
    (hmax : 0 ≤ rule.max) (k : κ) (t : τ) :
    ((inWindow k rule.window t (admitted rules events)).length : ℤ) ≤ rule.max :=
  (room_admitted hrule events).bound hmax (hmono.sublist (admitted_sublist.map _)) k t

end

end Shortener.Common.SlidingWindow
