import Shortener.Common.Run

/-!
# The lifetime of a cached page

`SetHash` and `GetHash` of `CacheServiceBase` (`Shortener.Shared/Services/CacheService.cs`,
lines 75–124) on the hash of one user, which holds an entry for each page. Redis keeps one
deadline for the whole hash, and `SetHash` moves it with every page that it stores
(`UpdateUrlStatsPaginationCacheInBackground`). Times are in milliseconds.

* `tracks_step`: an entry is found as long as no two writes of the hash since its own are
  further apart than the lifetime.
* `pages_expire_iff`: in a run no `GetHash` returns a page older than its lifetime exactly if no
  old page is looked up that later writes have kept alive.
* `kept_alive_page`: two pages that are written in turn keep an old one alive.
-/

namespace Shortener.Cache.HashExpiry

open Shortener.Common

/-! ## Redis -/

/-- What `SetHash` has stored, with the time. -/
structure Page (ν : Type) where
  data : ν
  time : ℤ
  deriving DecidableEq, Repr

/-- A hash with its deadline. -/
structure Hash (ν : Type) where
  entries : String → Option (Page ν)
  deadline : Option ℤ

variable {ν : Type}

/-- A key past its deadline is absent. -/
def present (hash : Option (Hash ν)) (now : ℤ) : Option (Hash ν) :=
  hash.filter fun hash => hash.deadline.all fun deadline => now ≤ deadline

/-- `HSET`, which keeps the deadline. -/
def hashSet (hash : Option (Hash ν)) (entryKey : String) (page : Page ν) : Hash ν :=
  match hash with
  | none => ⟨Function.update (fun _ => none) entryKey (some page), none⟩
  | some hash => { hash with entries := Function.update hash.entries entryKey (some page) }

/-- `EXPIRE`, which replaces the deadline. -/
def keyExpire (hash : Hash ν) (now duration : ℤ) : Hash ν :=
  { hash with deadline := some (now + duration) }

/-! ## The cache service -/

/-- `TimeSpan.FromMinutes(15)`. -/
def pageDuration : ℤ := 15 * 60 * 1000

/-- The transaction of `SetHash`. -/
def setHash (hash : Option (Hash ν)) (now : ℤ) (entryKey : String) (data : ν) (duration : ℤ) :
    Hash ν :=
  keyExpire (hashSet (present hash now) entryKey ⟨data, now⟩) now duration

/-- `GetHash`. -/
def getHash (hash : Option (Hash ν)) (now : ℤ) (entryKey : String) : Option (Page ν) :=
  (present hash now).bind fun hash => hash.entries entryKey

/-- What a `GetHash` has returned. -/
structure Reply (ν : Type) where
  time : ℤ
  page : Page ν
  deriving DecidableEq, Repr

/-- The clock, the hash, and what has been written and read. -/
structure State (ν : Type) where
  now : ℤ
  hash : Option (Hash ν)
  /-- the entry keys and times of all calls of `SetHash`, the last one first -/
  writes : List (String × ℤ)
  /-- what all calls of `GetHash` have returned -/
  replies : List (Reply ν)

/-- There is no hash. -/
def State.init (now : ℤ) : State ν := ⟨now, none, [], []⟩

/-- A call of `SetHash` or `GetHash`. -/
inductive Event (ν : Type)
  | setHash (now : ℤ) (entryKey : String) (data : ν)
  | getHash (now : ℤ) (entryKey : String)
  deriving DecidableEq, Repr

/-- A step at a time that is not before the last one. -/
def step (s : State ν) : Event ν → Option (State ν)
  | .setHash now entryKey data =>
    if s.now ≤ now then
      some { s with
        now := now
        hash := some (setHash s.hash now entryKey data pageDuration)
        writes := (entryKey, now) :: s.writes }
    else none
  | .getHash now entryKey =>
    if s.now ≤ now then
      some { s with
        now := now
        replies := s.replies ++ ((getHash s.hash now entryKey).map (Reply.mk now)).toList }
    else none

/-! ## Which entries are found -/

/-- The time of the last write of the entry, if since then the hash was written again each time
    before its lifetime was over, until `now`. -/
def keptAlive (entryKey : String) : List (String × ℤ) → ℤ → Option ℤ
  | [], _ => none
  | write :: writes, now =>
    if now ≤ write.2 + pageDuration then
      if write.1 = entryKey then some write.2 else keptAlive entryKey writes write.2
    else none

/-- The entries of the hash are those that were kept alive, now and later. -/
def Tracks (s : State ν) : Prop :=
  ∀ entryKey now, s.now ≤ now →
    (getHash s.hash now entryKey).map Page.time = keptAlive entryKey s.writes now

variable {s t : State ν} {e : Event ν} {es : List (Event ν)}

theorem tracks_init (now : ℤ) : Tracks (State.init now : State ν) := fun _ _ _ => rfl

theorem entries_hashSet (hash : Option (Hash ν)) (entryKey entryKey' : String) (page : Page ν) :
    (hashSet hash entryKey page).entries entryKey' =
      if entryKey = entryKey' then some page else hash.bind fun hash => hash.entries entryKey' := by
  cases hash with
  | none =>
    show Function.update (fun _ => none) entryKey (some page) entryKey' = _
    rw [Function.update_apply, Option.bind_none]
    simp only [eq_comm]
  | some hash =>
    show Function.update hash.entries entryKey (some page) entryKey' = _
    rw [Function.update_apply, Option.bind_some]
    simp only [eq_comm]

/-- After `SetHash` its entry is found, and those that were there, until the new deadline. -/
theorem getHash_setHash (hash : Option (Hash ν)) (now now' : ℤ) (entryKey entryKey' : String)
    (data : ν) :
    getHash (some (setHash hash now entryKey data pageDuration)) now' entryKey' =
      if now' ≤ now + pageDuration then
        if entryKey = entryKey' then some ⟨data, now⟩ else getHash hash now entryKey'
      else none := by
  have hentries : (setHash hash now entryKey data pageDuration).entries entryKey' =
      if entryKey = entryKey' then some ⟨data, now⟩ else getHash hash now entryKey' :=
    entries_hashSet _ _ _ _
  have hdeadline : (setHash hash now entryKey data pageDuration).deadline =
      some (now + pageDuration) := rfl
  rw [← hentries, getHash, present, Option.filter_some, hdeadline]
  split_ifs with h h' h'
  · rfl
  · exact absurd (by simpa using h) h'
  · exact absurd (by simpa using h') h
  · rfl

theorem tracks_setHash {now : ℤ} {entryKey : String} {data : ν} (hs : Tracks s)
    (hnow : s.now ≤ now) :
    Tracks { s with
      now := now
      hash := some (setHash s.hash now entryKey data pageDuration)
      writes := (entryKey, now) :: s.writes } := by
  intro entryKey' now' _
  rw [getHash_setHash, keptAlive]
  split_ifs
  · rfl
  · exact hs entryKey' now hnow
  · rfl

theorem tracks_step (hs : Tracks s) (h : step s e = some t) : Tracks t := by
  cases e with
  | setHash now entryKey data =>
    simp only [step, Option.ite_none_right_eq_some, Option.some.injEq] at h
    obtain ⟨hnow, rfl⟩ := h
    exact tracks_setHash hs hnow
  | getHash now entryKey =>
    simp only [step, Option.ite_none_right_eq_some, Option.some.injEq] at h
    obtain ⟨hnow, rfl⟩ := h
    intro entryKey' now' hnow'
    exact hs entryKey' now' (hnow.trans hnow')

/-! ## Which pages are too old -/

/-- No `GetHash` has returned a page that was written more than 15 minutes before. -/
def Expire (s : State ν) : Prop :=
  ∀ reply ∈ s.replies, reply.time - pageDuration ≤ reply.page.time

/-- The call does not look up an entry that is too old and was kept alive. -/
def LooksUpNoOldEntry (s : State ν) : Event ν → Prop
  | .setHash _ _ _ => True
  | .getHash now entryKey =>
    ∀ time ∈ keptAlive entryKey s.writes now, now - pageDuration ≤ time

instance (s : State ν) (e : Event ν) : Decidable (LooksUpNoOldEntry s e) := by
  unfold LooksUpNoOldEntry
  split <;> infer_instance

theorem expire_step (hs : Tracks s) (h : step s e = some t) :
    Expire t ↔ Expire s ∧ LooksUpNoOldEntry s e := by
  cases e with
  | setHash now entryKey data =>
    simp only [step, Option.ite_none_right_eq_some, Option.some.injEq] at h
    obtain ⟨-, rfl⟩ := h
    exact (and_iff_left trivial).symm
  | getHash now entryKey =>
    simp only [step, Option.ite_none_right_eq_some, Option.some.injEq] at h
    obtain ⟨hnow, rfl⟩ := h
    have hreply : (∀ reply ∈ ((getHash s.hash now entryKey).map (Reply.mk now)).toList,
        reply.time - pageDuration ≤ reply.page.time) ↔
          ∀ time ∈ keptAlive entryKey s.writes now, now - pageDuration ≤ time := by
      rw [← hs entryKey now hnow]
      cases getHash s.hash now entryKey <;> simp
    exact List.forall_mem_append.trans (and_congr_right fun _ => hreply)

/-- **Cached pages expire exactly as long as no old page is looked up that was kept alive.** In
    every run of `SetHash` and `GetHash` on one hash. -/
theorem pages_expire_iff {now : ℤ} (h : Run step always (State.init now) es s) :
    Expire s ↔ Run step LooksUpNoOldEntry (State.init now) es s :=
  h.safe_iff (tracks_init now) (fun _ hreply => absurd hreply List.not_mem_nil)
    (fun _ _ _ hs hstep => tracks_step hs hstep) (fun _ _ _ hs hstep => expire_step hs hstep)

/-- A page is looked up ten minutes after it was stored, and once more when half an hour has gone
    without another page. -/
def lookUps : List (Event ℕ) :=
  [.setHash 0 "10---" 1, .getHash 600000 "10---", .getHash 2400000 "10---"]

theorem pages_expire_lookUps : ∃ s, Run step always (State.init 0) lookUps s ∧ Expire s := by
  have hrun : (lookUps.foldlM (guarded step LooksUpNoOldEntry) (State.init 0)).isSome := by
    decide +kernel
  obtain ⟨s, hs⟩ := Option.isSome_iff_exists.mp hrun
  have hs := run_iff_foldlM_guarded.mpr hs
  exact ⟨s, hs.always, (pages_expire_iff hs.always).mpr hs⟩

/-- Two pages are stored ten minutes apart, and the first one is looked up ten minutes later. -/
def inTurn : List (Event ℕ) :=
  [.setHash 0 "10---" 1, .setHash 600000 "20---" 2, .getHash 1200000 "10---"]

/-- The page that is returned is twenty minutes old. -/
theorem kept_alive_page : ∃ s, Run step always (State.init 0) inTurn s ∧
    s.replies = [⟨1200000, ⟨1, 0⟩⟩] ∧ ¬ Expire s := by
  have hrun : ((inTurn.foldlM step (State.init 0)).map State.replies) =
      some [⟨1200000, ⟨1, 0⟩⟩] := by
    decide +kernel
  obtain ⟨s, hs, hreplies⟩ := Option.map_eq_some_iff.mp hrun
  refine ⟨s, run_iff_foldlM.mpr hs, hreplies, ?_⟩
  unfold Expire
  rw [hreplies]
  decide

end Shortener.Cache.HashExpiry
