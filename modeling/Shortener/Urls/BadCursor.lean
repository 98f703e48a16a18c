import Shortener.Rpc.Interceptor
import Shortener.Urls.Service

/-!
# Malformed cursors

What `GetByUserId` answers to a cursor that is none: `ParseCursor` throws an
`ArgumentException` for every text that is not a cursor, except that `Base64Utils.Decode`
throws a `FormatException` for a text that is not Base64, which `ParseCursor` lets pass and
the interceptor does not name.

* `parseCursor_callersFault_iff`: the texts on which `ParseCursor` returns or throws an
  `ArgumentException`.
* `badCursor_classified_iff`: the texts that are never reported as an unknown failure.
-/

namespace Shortener.Urls

open Shortener.DotNet Shortener.Codec Shortener.Stats Shortener.Rpc

/-! ## `ParseCursor` -/

/-- The call returns or throws an `ArgumentException`. -/
def CallersFault {α : Type} (x : Exec α) : Prop :=
  x.Returns ∨ ∃ message paramName, x = .throw (.argument message paramName)

/-- `cursor` is empty or can be decoded. -/
def Decodable (cursor : String) : Prop := cursor = "" ∨ (fromBase64 cursor.toList).isSome

instance (cursor : String) : Decidable (Decodable cursor) := inferInstanceAs (Decidable (_ ∨ _))

theorem callersFault_ret {α : Type} (a : α) : CallersFault (.ret a) := Or.inl ⟨a, rfl⟩

theorem callersFault_invalidCursor {α : Type} (cursor : String) :
    CallersFault (.throw (invalidCursor cursor) : Exec α) := Or.inr ⟨_, _, rfl⟩

theorem not_callersFault_badBase64 {α : Type} : ¬ CallersFault (.throw badBase64 : Exec α) := by
  simp [CallersFault, badBase64]

/-- The one exception that is not turned into an `ArgumentException`. -/
theorem parseCursor_of_not_decodable {cursor : String} (h : ¬ Decodable cursor) :
    parseCursor cursor = .throw badBase64 := by
  unfold Decodable at h
  push Not at h
  have hnone : fromBase64 cursor.toList = none := by simpa using h.2
  rw [parseCursor, if_neg h.1, decode, hnone]
  rfl

theorem fromUnixTimeMilliseconds_cases (ms : ℤ) :
    (∃ t, fromUnixTimeMilliseconds ms = .ret t) ∨
      ∃ message, fromUnixTimeMilliseconds ms = .throw (.argumentOutOfRange "milliseconds" message) := by
  unfold fromUnixTimeMilliseconds
  split_ifs
  · exact Or.inl ⟨_, rfl⟩
  · exact Or.inr ⟨_, rfl⟩

theorem parseCursor_of_decodable {cursor : String} (h : Decodable cursor) :
    CallersFault (parseCursor cursor) := by
  unfold parseCursor
  split_ifs with hempty
  · exact callersFault_invalidCursor cursor
  obtain ⟨bytes, hbytes⟩ := Option.isSome_iff_exists.mp (h.resolve_left hempty)
  rw [decode, hbytes]
  simp only [Exec.ret_bind]
  split
  · split
    · rename_i urlId updatedAtMs _ _
      obtain ⟨t, ht⟩ | ⟨message, hms⟩ := fromUnixTimeMilliseconds_cases updatedAtMs
      · rw [ht]
        exact callersFault_ret _
      · rw [hms]
        exact callersFault_invalidCursor cursor
    · exact callersFault_invalidCursor cursor
  · exact callersFault_invalidCursor cursor

/-- `ParseCursor` returns or throws an `ArgumentException` on a text that can be decoded, and
    on no other. -/
theorem parseCursor_callersFault_iff (cursor : String) :
    CallersFault (parseCursor cursor) ↔ Decodable cursor := by
  constructor
  · intro h
    by_contra hnot
    rw [parseCursor_of_not_decodable hnot] at h
    exact not_callersFault_badBase64 h
  · exact parseCursor_of_decodable

/-! ## The request -/

/-- `cursor` is sent as `After` with `First`, or as `Before` with `Last` and no `First`. -/
def Sends (request : GetUrlsByUserIdRequest) (cursor : String) : Prop :=
  (request.first.isSome ∧ request.after = some cursor) ∨
    (request.first = none ∧ request.last.isSome ∧ request.before = some cursor)

/-- A cursor that is not one decides the outcome of the request. -/
theorem getByUserId_of_throw (backend : Backend) (clock : Url → ℤ)
    {request : GetUrlsByUserIdRequest} {cursor : String} (hsends : Sends request cursor) {e : Exn}
    (hparse : parseCursor cursor = .throw e) :
    backend.getByUserId clock request = .throw e := by
  obtain ⟨hfirst, hafter⟩ | ⟨hfirst, hlast, hbefore⟩ := hsends
  · obtain ⟨first, hfirst⟩ := Option.isSome_iff_exists.mp hfirst
    have hquery : request.query = .throw e := by
      unfold GetUrlsByUserIdRequest.query
      rw [hfirst, hafter]
      simp only [parseCursor?, hparse]
      rfl
    rw [Backend.getByUserId, hquery]
    rfl
  · obtain ⟨last, hlast⟩ := Option.isSome_iff_exists.mp hlast
    have hquery : request.query = .throw e := by
      unfold GetUrlsByUserIdRequest.query
      rw [hfirst, hlast, hbefore]
      simp only [parseCursor?, hparse]
      rfl
    rw [Backend.getByUserId, hquery]
    rfl

/-- `cursor` is the caller's error: `ParseCursor` returns or throws an `ArgumentException`, and
    if it throws, a request with `cursor` is answered with a status. -/
def IsCallersError (backend : Backend) (clock : Url → ℤ) (render : Exn → String)
    (request : GetUrlsByUserIdRequest) (cursor : String) : Prop :=
  CallersFault (parseCursor cursor) ∧
    ((∃ e, parseCursor cursor = .throw e) →
      Classified (unaryServerHandler render (backend.getByUserId clock request)))

/-- **A text sent as cursor is the caller's error exactly if it is empty or Base64.** For every
    backend and every request that sends it. -/
theorem badCursor_classified_iff (backend : Backend) (clock : Url → ℤ) (render : Exn → String)
    {request : GetUrlsByUserIdRequest} {cursor : String} (hsends : Sends request cursor) :
    IsCallersError backend clock render request cursor ↔ Decodable cursor := by
  unfold IsCallersError
  rw [parseCursor_callersFault_iff]
  constructor
  · exact And.left
  · intro h
    refine ⟨h, ?_⟩
    rintro ⟨e, he⟩
    rw [getByUserId_of_throw backend clock hsends he, unaryServerHandler_throw_classified_iff]
    obtain hret | ⟨message, paramName, harg⟩ := parseCursor_of_decodable h
    · rw [he] at hret
      exact absurd hret (Exec.not_returns_throw e)
    · obtain rfl := Exec.throw.inj (he.symm.trans harg)
      trivial

/-- Base64 of another text is the caller's error, and a question mark is not. -/
theorem badCursor_classified_abc :
    IsCallersError ⟨.invariantMode, 1, ⟨[], by simp, by simp, by simp⟩⟩ (fun _ => 0) (fun _ => "")
        ⟨7, some 10, some "abcd", none, none⟩ "abcd" ∧
      ¬ IsCallersError ⟨.invariantMode, 1, ⟨[], by simp, by simp, by simp⟩⟩ (fun _ => 0)
        (fun _ => "") ⟨7, none, none, some 10, some "?"⟩ "?" :=
  ⟨(badCursor_classified_iff _ _ _ (Or.inl ⟨rfl, rfl⟩)).mpr (by decide),
    fun h => absurd ((badCursor_classified_iff _ _ _ (Or.inr ⟨rfl, rfl, rfl⟩)).mp h) (by decide)⟩

/-- A question mark is no Base64: the client is told of an unknown failure. -/
theorem badCursor_unclassified :
    ¬ CallersFault (parseCursor "?") ∧
      ¬ Classified (unaryServerHandler (fun _ => "")
        (Backend.getByUserId ⟨.invariantMode, 1, ⟨[], by simp, by simp, by simp⟩⟩ (fun _ => 0)
          ⟨7, some 10, some "?", none, none⟩)) := by
  have hparse : parseCursor "?" = .throw badBase64 := parseCursor_of_not_decodable (by decide)
  constructor
  · rw [hparse]
    exact not_callersFault_badBase64
  · rw [getByUserId_of_throw _ _ (Or.inl ⟨rfl, rfl⟩) hparse, unaryServerHandler_throw_classified_iff]
    exact id

end Shortener.Urls
