import Shortener.Common.Fifo
import Shortener.Queue.Worker

/-!
# The order of work items

* `Process.fifo_step`: a step puts items at the end of the queue and takes them from its start.
* `begun_in_order`: the worker begins the items in the order in which they were enqueued, each
  of them once.
* `begins_alone`: it begins an item only after the one before has ended.
-/

namespace Shortener.Queue

open Shortener.Common Shortener.DotNet Shortener.Shard

variable {c : ℕ} {s t : Process c} {e : Event} {es : List Event}

/-- The items that a step enqueues. -/
def enqueues (s : Process c) : Event → List WorkItem
  | .enqueue _ item => [item]
  | .createChild _ => [.deleteTask s.shardChildPath]
  | .delayEnds =>
    match s.worker with
    | .delaying oldEphemeralPath => [.deleteTask oldEphemeralPath]
    | _ => []
  | _ => []

/-- The items that a step hands to the worker. -/
def begins [NeZero c] (s : Process c) : Event → List WorkItem
  | .enqueue n item => (s.queue.write (.handler n) item).2.toList
  | .dequeue => s.queue.read.2.toList
  | _ => []

/-- The worker, in the body of an item, writes to the channel that nobody reads then. -/
theorem pending_workerEnqueues (hi : Inv s) (hreading : s.worker ≠ .reading) (item task : WorkItem) :
    (s.workerEnqueues item task).queue.pending = s.queue.pending ++ [task] := by
  have hreader : s.queue.reader ≠ true := fun hr => hreading (hi.reading.mp hr)
  have hwrite := s.queue.write_pending .worker task
  rw [Channel.write_snd, if_neg hreader] at hwrite
  exact hwrite

theorem Process.fifo_step [NeZero c] (hi : Inv s) (h : step c s e = some t) :
    begins s e ++ t.queue.pending = s.queue.pending ++ enqueues s e := by
  cases e with
  | startup type path =>
    simp only [step, Option.ite_none_left_eq_some, Option.some.injEq] at h
    obtain ⟨-, rfl⟩ := h
    simp [begins, enqueues]
  | enqueue n item =>
    simp only [step, Option.ite_none_right_eq_some, Option.some.injEq] at h
    obtain ⟨-, rfl⟩ := h
    exact s.queue.write_pending (.handler n) item
  | dequeue =>
    simp only [step, Option.ite_none_right_eq_some, Option.some.injEq] at h
    obtain ⟨-, rfl⟩ := h
    show s.queue.read.2.toList ++ s.queue.read.1.pending = s.queue.pending ++ []
    rw [List.append_nil]
    exact s.queue.read_pending
  | returns =>
    simp only [step] at h
    split at h
    · simp only [Option.ite_none_right_eq_some, Option.some.injEq] at h
      obtain ⟨-, rfl⟩ := h
      simp [begins, enqueues]
    · obtain rfl := Option.some.inj h
      simp [begins, enqueues]
    · cases h
  | throws =>
    simp only [step] at h
    split at h
    · obtain rfl := Option.some.inj h
      simp [begins, enqueues]
    · obtain rfl := Option.some.inj h
      simp [begins, enqueues]
    · cases h
  | createChild path =>
    simp only [step] at h
    split at h
    · rename_i newType hw
      simp only [Option.ite_none_left_eq_some, Option.some.injEq] at h
      obtain ⟨-, rfl⟩ := h
      exact pending_workerEnqueues (s := { s with shardChildPath := path }) ⟨hi.enqueuing, hi.reading⟩
        (by simp [hw]) _ _
    · cases h
  | keeperException =>
    simp only [step] at h
    split at h
    · obtain rfl := Option.some.inj h
      simp [begins, enqueues]
    · cases h
  | delayEnds =>
    simp only [step] at h
    split at h
    · rename_i path hw
      obtain rfl := Option.some.inj h
      simp only [begins, enqueues, hw, List.nil_append]
      exact pending_workerEnqueues hi (by simp [hw]) _ _
    · cases h
  | resume =>
    simp only [step, Option.ite_none_left_eq_some] at h
    obtain ⟨-, h⟩ := h
    split at h
    · obtain rfl := Option.some.inj h
      simp [begins, enqueues]
    · obtain rfl := Option.some.inj h
      simp [begins, enqueues]
    · cases h

/-- The worker begins an item only when it is in the body of none. -/
theorem begins_alone [NeZero c] (hi : Inv s) (h : step c s e = some t) (hbegins : begins s e ≠ []) :
    s.worker = .idle ∨ s.worker = .reading := by
  cases e with
  | enqueue n item =>
    have hreader : s.queue.reader = true := by
      by_contra hreader
      rw [begins, Channel.write_snd, if_neg hreader] at hbegins
      exact hbegins rfl
    exact .inr (hi.reading.mp hreader)
  | dequeue =>
    simp only [step, Option.ite_none_right_eq_some] at h
    exact .inl h.1.2
  | _ => exact absurd rfl hbegins

/-- **First in, first out.** What the worker has begun in a run, followed by what is in the
    channel and what waits for room in it, is what was enqueued, in the order of the calls of
    `QueueBackgroundWorkItem`; and a step begins an item only when the worker is in the body
    of none. -/
theorem begun_in_order [NeZero c] (h : Run (step c) always (.init c) es s) :
    emitted (step c) begins (.init c) es ++ s.queue.pending =
        emitted (step c) enqueues (.init c) es ∧
      ∀ e t, step c s e = some t → begins s e ≠ [] → s.worker = .idle ∨ s.worker = .reading := by
  have hi : Inv s := h.invariant (inv_init c) fun _ _ _ hi _ hs => inv_step hi hs
  constructor
  · exact h.fifo (fun s => s.queue.pending) (inv_init c) (fun _ _ _ hi _ hs => inv_step hi hs)
      fun _ _ _ hi hs => Process.fifo_step hi hs
  · intro e t hs hbegins
    exact begins_alone hi hs hbegins

/-- The worker waits for an item, gets one at once, and finds its own `DeleteTask` behind the
    item of another request. -/
def handedRun : List Event :=
  [.startup .readWrite "shard-0000000000", .dequeue, .enqueue 0 (.changeType .writeUrlsOnly),
    .enqueue 1 (.incrementVisit "1L9zO9P"), .createChild "shard-0000000001", .resume, .dequeue]

theorem begun_in_order_handedRun :
    ∃ s, (emitted (step 2) begins (.init 2) handedRun ++ s.queue.pending =
        emitted (step 2) enqueues (.init 2) handedRun ∧
      ∀ e t, step 2 s e = some t → begins s e ≠ [] → s.worker = .idle ∨ s.worker = .reading) ∧
      s.worker = .running (.incrementVisit "1L9zO9P") := by
  have hrun : Run (step 2) always (.init 2) handedRun
      ((handedRun.foldlM (step 2) (.init 2)).getD (.init 2)) := run_iff_foldlM.mpr rfl
  exact ⟨_, begun_in_order hrun, rfl⟩

end Shortener.Queue
