import Shortener.DotNet.Encoding
import Shortener.DotNet.Integer

/-!
# Cursors

`CreateCursor` and `ParseCursor` (`Shortener.Shared/Utils/ShortIdUtils.cs`, lines 73–111)
with `Base64Utils`. A cursor is the Base64 text of a row's id and its `UpdatedAt` in whole
milliseconds; instants are nanoseconds since the epoch.

* `parseCursor_createCursor`: parsing a cursor gives the id and the instant rounded down
  to a millisecond.
* `cursor_roundTrip`: so a cursor stands for one id and one millisecond.
-/

namespace Shortener.Codec

open Shortener.DotNet

/-! ## Instants -/

/-- The nanoseconds of a millisecond. -/
def millisecond : ℤ := 10 ^ 6

/-- The first millisecond of `Instant`, -9998-01-01T00:00:00Z. -/
def minMilliseconds : ℤ := -4371222 * 86400000

/-- The last millisecond of `Instant`, 9999-12-31T23:59:59.999Z. -/
def maxMilliseconds : ℤ := 2932897 * 86400000 - 1

/-- `t` is an `Instant`. -/
def IsInstant (t : ℤ) : Prop :=
  minMilliseconds * millisecond ≤ t ∧ t < (maxMilliseconds + 1) * millisecond

instance (t : ℤ) : Decidable (IsInstant t) := inferInstanceAs (Decidable (_ ∧ _))

/-- `Instant.ToUnixTimeMilliseconds`. -/
def toUnixTimeMilliseconds (t : ℤ) : ℤ := t / millisecond

/-- `Instant.FromUnixTimeMilliseconds`. -/
def fromUnixTimeMilliseconds (ms : ℤ) : Exec ℤ :=
  if minMilliseconds ≤ ms ∧ ms ≤ maxMilliseconds then .ret (ms * millisecond)
  else .throw (.argumentOutOfRange "milliseconds"
    s!"Value should be in range [{minMilliseconds}-{maxMilliseconds}]")

/-- `t` rounded down to a millisecond. -/
def floorMillisecond (t : ℤ) : ℤ := toUnixTimeMilliseconds t * millisecond

theorem floorMillisecond_le (t : ℤ) : floorMillisecond t ≤ t := by
  unfold floorMillisecond toUnixTimeMilliseconds millisecond
  omega

/-- Only whole milliseconds are kept. -/
theorem dvd_floorMillisecond (t : ℤ) : millisecond ∣ floorMillisecond t :=
  Dvd.intro_left (toUnixTimeMilliseconds t) rfl

/-- It is the last whole millisecond up to `t`. -/
theorem le_floorMillisecond {t t' : ℤ} (ht' : millisecond ∣ t') (h : t' ≤ t) :
    t' ≤ floorMillisecond t := by
  unfold floorMillisecond toUnixTimeMilliseconds millisecond at *
  omega

theorem floorMillisecond_eq_iff {t : ℤ} : floorMillisecond t = t ↔ millisecond ∣ t := by
  unfold floorMillisecond toUnixTimeMilliseconds millisecond
  omega

theorem fromUnixTimeMilliseconds_toUnixTimeMilliseconds {t : ℤ} (h : IsInstant t) :
    fromUnixTimeMilliseconds (toUnixTimeMilliseconds t) = .ret (floorMillisecond t) := by
  apply if_pos
  unfold IsInstant millisecond at h
  unfold toUnixTimeMilliseconds millisecond
  omega

theorem isInt64_toUnixTimeMilliseconds {t : ℤ} (h : IsInstant t) :
    IsInt64 (toUnixTimeMilliseconds t) := by
  unfold IsInstant millisecond minMilliseconds maxMilliseconds at h
  unfold IsInt64 toUnixTimeMilliseconds millisecond
  omega

/-! ## `Base64Utils` -/

/-- `Base64Utils.Encode`. -/
def encode (plainText : List Char) : List Char := toBase64 (utf8Encode plainText)

/-- What `FromBase64String` throws. -/
def badBase64 : Exn :=
  .format ("The input is not a valid Base-64 string as it contains a non-base 64 character, more " ++
    "than two padding characters, or an illegal character among the padding characters.")

/-- `Base64Utils.Decode`. -/
def decode (encodedData : List Char) : Exec (List Char) :=
  match fromBase64 encodedData with
  | some encodedBytes => .ret (utf8Decode encodedBytes)
  | none => .throw badBase64

theorem decode_encode {text : List Char} (h : ∀ c ∈ text, c.toNat < 128) :
    decode (encode text) = .ret text := by
  have hbytes : ∀ byte ∈ text.map Char.toNat, byte < 256 := by
    intro byte hbyte
    obtain ⟨c, hc, rfl⟩ := List.mem_map.mp hbyte
    exact (h c hc).trans (by omega)
  rw [decode, encode, utf8Encode_ascii h, fromBase64_toBase64 hbytes]
  exact congrArg Exec.ret (utf8Decode_ascii h)

/-! ## Cursors -/

/-- The text of a cursor, `$"{urlId}:{updatedAt.ToUnixTimeMilliseconds()}"`. -/
def opaqueText (urlId updatedAt : ℤ) : List Char :=
  (toString urlId).toList ++ ':' :: (toString (toUnixTimeMilliseconds updatedAt)).toList

/-- `ShortIdUtils.CreateCursor`. -/
def createCursor (urlId updatedAt : ℤ) : String :=
  String.ofList (encode (opaqueText urlId updatedAt))

/-- The `ArgumentException` of `ParseCursor`. -/
def invalidCursor (opaqueCursor : String) : Exn :=
  .argument s!"Invalid cursor: {opaqueCursor}" (some "opaqueCursor")

/-- `ShortIdUtils.ParseCursor`. -/
def parseCursor (opaqueCursor : String) : Exec (ℤ × ℤ) := do
  if opaqueCursor = "" then .throw (invalidCursor opaqueCursor)
  else
    let text ← decode opaqueCursor.toList
    match text.splitOn ':' with
    | [first, second] =>
      match tryParseInt32 first, tryParseInt64 second with
      | some urlId, some updatedAtMs =>
        match fromUnixTimeMilliseconds updatedAtMs with
        | .ret updatedAt => return (urlId, updatedAt)
        | .throw (.argumentOutOfRange _ _) => .throw (invalidCursor opaqueCursor)
        | .throw e => .throw e
        | .diverge => .diverge
      | _, _ => .throw (invalidCursor opaqueCursor)
    | _ => .throw (invalidCursor opaqueCursor)

theorem opaqueText_ascii (urlId updatedAt : ℤ) : ∀ c ∈ opaqueText urlId updatedAt, c.toNat < 128 := by
  intro c hc
  rcases List.mem_append.mp hc with h | h
  · exact (of_mem_toString h).1
  · rcases List.mem_cons.mp h with rfl | h
    · decide
    · exact (of_mem_toString h).1

theorem splitOn_opaqueText (urlId updatedAt : ℤ) :
    (opaqueText urlId updatedAt).splitOn ':' =
      [(toString urlId).toList, (toString (toUnixTimeMilliseconds updatedAt)).toList] := by
  have hnot : ∀ n : ℤ, ':' ∉ (toString n).toList := fun n h => (of_mem_toString h).2 rfl
  rw [opaqueText, List.splitOn_append_cons_self_of_not_mem (hnot _),
    List.splitOn_eq_singleton (hnot _)]

theorem createCursor_ne_empty (urlId updatedAt : ℤ) : createCursor urlId updatedAt ≠ "" := by
  intro h
  have hencode : encode (opaqueText urlId updatedAt) = [] :=
    String.toList_ofList.symm.trans (congrArg String.toList h)
  have hdecode := decode_encode (opaqueText_ascii urlId updatedAt)
  rw [hencode] at hdecode
  have hnil : opaqueText urlId updatedAt = [] := (Exec.ret.inj hdecode).symm
  have hmem : ':' ∈ opaqueText urlId updatedAt := List.mem_append_right _ List.mem_cons_self
  rw [hnil] at hmem
  exact absurd hmem List.not_mem_nil

/-- A cursor gives back the id and the instant rounded down to a millisecond. -/
theorem parseCursor_createCursor {urlId updatedAt : ℤ} (hid : IsInt32 urlId)
    (hupdatedAt : IsInstant updatedAt) :
    parseCursor (createCursor urlId updatedAt) = .ret (urlId, floorMillisecond updatedAt) := by
  rw [parseCursor, if_neg (createCursor_ne_empty urlId updatedAt), createCursor, String.toList_ofList,
    decode_encode (opaqueText_ascii urlId updatedAt), Exec.ret_bind, splitOn_opaqueText]
  simp only [tryParseInt32_toString hid,
    tryParseInt64_toString (isInt64_toUnixTimeMilliseconds hupdatedAt),
    fromUnixTimeMilliseconds_toUnixTimeMilliseconds hupdatedAt, Exec.pure_eq]

/-- **Cursors round-trip.** Parsing a cursor gives back the id and the instant rounded down to a
    millisecond, and two cursors are equal exactly if their ids and milliseconds are. -/
theorem cursor_roundTrip {urlId updatedAt : ℤ} (hid : IsInt32 urlId)
    (hupdatedAt : IsInstant updatedAt) :
    parseCursor (createCursor urlId updatedAt) = .ret (urlId, floorMillisecond updatedAt) ∧
      ∀ urlId' updatedAt', IsInt32 urlId' → IsInstant updatedAt' →
        (createCursor urlId updatedAt = createCursor urlId' updatedAt' ↔
          urlId = urlId' ∧ toUnixTimeMilliseconds updatedAt = toUnixTimeMilliseconds updatedAt') := by
  have hparse := parseCursor_createCursor hid hupdatedAt
  refine ⟨hparse, ?_⟩
  intro urlId' updatedAt' hid' hupdatedAt'
  constructor
  · intro h
    rw [h, parseCursor_createCursor hid' hupdatedAt'] at hparse
    obtain ⟨hurlId, hfloor⟩ := Prod.mk.inj (Exec.ret.inj hparse)
    unfold floorMillisecond millisecond at hfloor
    exact ⟨hurlId.symm, by omega⟩
  · intro h
    obtain ⟨rfl, hms⟩ := h
    rw [createCursor, createCursor, opaqueText, opaqueText, hms]

/-- A negative id, and an instant one nanosecond before the epoch. -/
theorem cursor_roundTrip_beforeEpoch :
    parseCursor (createCursor (-7) (-1)) = .ret (-7, -1000000) ∧
      ∀ urlId' updatedAt', IsInt32 urlId' → IsInstant updatedAt' →
        (createCursor (-7) (-1) = createCursor urlId' updatedAt' ↔
          -7 = urlId' ∧ toUnixTimeMilliseconds (-1) = toUnixTimeMilliseconds updatedAt') :=
  cursor_roundTrip (by decide) (by decide)

end Shortener.Codec
