import Shortener.Codec.UrlEncoder

/-!
# Short ids

`ShortId` of `Shortener.Shared/Entities/ShortId.cs` and `ShortIdUtils.ParseId`
(`Shortener.Shared/Utils/ShortIdUtils.cs`, lines 10–22). A short id names a shard
(`Range`, a `long`) and a row of its `Url` table (`Index`, an `int`).

* `shortIdCodec_bijective`: `ToString` and `ParseId` are inverse to each other, on
  ids in one direction and on strings of seven characters in the other.
* `parseId_toString_iff`: an id with a larger index is printed as an id of a later
  shard, so `ParseId` gives it back exactly when `Index < RangeSize`.
-/

namespace Shortener.Codec

open Shortener.Common Shortener.DotNet

/-- `sealed record ShortId(long Range, int Index)`. -/
@[ext] structure ShortId where
  range : ℤ
  index : ℤ
  deriving DecidableEq, Repr

/-- The number `ToString` encodes, computed in unchecked `long` arithmetic. -/
def ShortId.base10Id (id : ShortId) : ℤ :=
  toInt64 (rangeSize * id.range + id.index + starterRange)

/-- `ShortId.ToString` (lines 7–11). -/
def ShortId.toString (id : ShortId) : Exec String := base10ToBase62 id.base10Id

/-- `ShortIdUtils.ParseId`. `/` and `%` on `long` round toward zero. -/
def parseId (shortId : String) : Exec ShortId := do
  if ¬ isValidBase62 shortId then
    .throw (.argument s!"Invalid shortId: {shortId}" (some "shortId"))
  else
    let base10Id ← base62ToBase10 shortId
    let range := (base10Id - starterRange).tdiv rangeSize
    let index := toInt32 ((base10Id - starterRange).tmod rangeSize)
    return ⟨range, index⟩

/-- The values of a shard id: the `Range` table stores it in an `INT` column, and
    `ShardService.Initialize` refuses to start when it differs from `SHARD_ID`. -/
def IsShardId (r : ℤ) : Prop := 0 ≤ r ∧ r < 2 ^ 31

instance (r : ℤ) : Decidable (IsShardId r) := inferInstanceAs (Decidable (_ ∧ _))

/-- Seven characters of the alphabet. -/
def IsCode (s : String) : Prop := s.length = 7 ∧ ∀ c ∈ s.toList, IsBase62Char c

/-! ## Codes and their numbers -/

theorem IsCode.mem {s : String} (h : IsCode s) : ∀ c ∈ s.toList, c ∈ elements :=
  fun c hc => isBase62Char_iff_mem.mp (h.2 c hc)

theorem IsCode.length {s : String} (h : IsCode s) : s.toList.length = 7 := by
  rw [String.length_toList]; exact h.1

/-- The number a code spells. -/
def codeValue (s : String) : ℕ := valueOf 62 (s.toList.map digitOf)

theorem IsCode.digits_lt {s : String} (h : IsCode s) : ∀ d ∈ s.toList.map digitOf, d < 62 := by
  intro d hd
  obtain ⟨c, hc, rfl⟩ := List.mem_map.mp hd
  exact digitOf_lt (h.mem c hc)

theorem IsCode.value_lt {s : String} (h : IsCode s) : codeValue s < 62 ^ 7 := by
  have := valueOf_lt (by norm_num) h.digits_lt
  rwa [List.length_map, h.length] at this

theorem IsCode.valid {s : String} (h : IsCode s) : isValidBase62 s = true := by
  have hlast : s.toList.getLast? ≠ some '\n' := by
    intro hl
    have := h.2 '\n' (List.mem_of_getLast? hl)
    revert this
    decide
  simp only [isValidBase62, if_neg hlast, h.length, decide_true, Bool.true_and, List.all_eq_true,
    decide_eq_true_eq]
  exact h.2

theorem IsCode.base62ToBase10 {s : String} (h : IsCode s) :
    base62ToBase10 s = .ret (codeValue s : ℤ) :=
  base62ToBase10_eq h.mem (by rw [h.length])

/-- `Base10ToBase62` inverts the spelling. -/
theorem IsCode.base10ToBase62 {s : String} (h : IsCode s) :
    base10ToBase62 (codeValue s : ℤ) = .ret s := by
  refine base10ToBase62_eq_ret_iff.mpr ⟨by omega, by exact_mod_cast h.value_lt, ?_⟩
  have hlen : (s.toList.map digitOf).length = 7 := by rw [List.length_map, h.length]
  rw [Int.toNat_natCast, codeValue, numeral_valueOf (by norm_num) hlen h.digits_lt,
    spell_map_digitOf h.mem, String.ofList_toList]

/-- What `Base10ToBase62` returns is a code of its argument. -/
theorem isCode_of_base10ToBase62 {n : ℤ} {s : String} (h : Codec.base10ToBase62 n = .ret s) :
    IsCode s ∧ (codeValue s : ℤ) = n := by
  obtain ⟨h0, hn, rfl⟩ := base10ToBase62_eq_ret_iff.mp h
  have hnat : n.toNat < 62 ^ 7 := by omega
  have hd : ∀ d ∈ numeral 62 7 n.toNat, d < 62 := numeral_lt (by norm_num)
  refine ⟨⟨?_, ?_⟩, ?_⟩
  · rw [← String.length_toList, String.toList_ofList, spell, List.length_map,
      length_numeral (by norm_num) hnat]
  · intro c hc
    rw [String.toList_ofList] at hc
    exact isBase62Char_iff_mem.mpr (mem_elements_of_mem_spell hd c hc)
  · rw [codeValue, String.toList_ofList, map_digitOf_spell hd, valueOf_numeral]
    omega

/-! ## `ToString` and `ParseId` -/

/-- `ToString` does not overflow on the ids of a deployed shard. -/
theorem ShortId.base10Id_eq {id : ShortId} (hr : IsShardId id.range) (hi : IsInt32 id.index) :
    id.base10Id = rangeSize * id.range + id.index + starterRange := by
  unfold IsShardId IsInt32 at *
  exact toInt64_of_isInt64 ⟨by unfold rangeSize starterRange; omega,
    by unfold rangeSize starterRange; omega⟩

theorem ShortId.isCode_of_toString {id : ShortId} {s : String} (h : id.toString = .ret s) :
    IsCode s ∧ (codeValue s : ℤ) = id.base10Id :=
  isCode_of_base10ToBase62 h

theorem parseId_of_isCode {s : String} (h : IsCode s) :
    parseId s = .ret ⟨((codeValue s : ℤ) - starterRange).tdiv rangeSize,
      ((codeValue s : ℤ) - starterRange).tmod rangeSize⟩ := by
  have hrem : IsInt32 (((codeValue s : ℤ) - starterRange).tmod rangeSize) := by
    have h1 := Int.tmod_lt_of_pos ((codeValue s : ℤ) - starterRange) (show 0 < rangeSize by decide)
    have h2 := Int.lt_tmod_of_pos ((codeValue s : ℤ) - starterRange) (show 0 < rangeSize by decide)
    unfold rangeSize at *
    exact ⟨by omega, by omega⟩
  simp only [parseId, h.valid, not_true_eq_false, if_false, h.base62ToBase10, Exec.ret_bind,
    Exec.pure_eq, toInt32_of_isInt32 hrem]

/-- Printing gives an id that parses back exactly when its index is in the range
    of its shard. -/
theorem parseId_toString_iff {id : ShortId} {s : String} (hr : IsShardId id.range)
    (h0 : 0 ≤ id.index) (hi : id.index < 2 ^ 31) (h : id.toString = .ret s) :
    parseId s = .ret id ↔ id.index < rangeSize := by
  obtain ⟨hcode, hval⟩ := id.isCode_of_toString h
  rw [ShortId.base10Id_eq hr ⟨by omega, hi⟩] at hval
  have hsub : (codeValue s : ℤ) - starterRange = rangeSize * id.range + id.index := by omega
  have hnonneg : 0 ≤ rangeSize * id.range + id.index := by
    have := hr.1
    unfold rangeSize
    omega
  rw [parseId_of_isCode hcode, hsub, Int.tdiv_eq_ediv_of_nonneg hnonneg,
    Int.tmod_eq_emod_of_nonneg hnonneg, Exec.ret.injEq, ShortId.ext_iff]
  unfold rangeSize
  simp only
  constructor
  · rintro ⟨-, h⟩
    omega
  · intro h
    exact ⟨by omega, by omega⟩

/-- Every code is the print of the id it parses to, also below `StarterRange`
    where both parts are negative or zero. -/
theorem toString_parseId {s : String} (h : IsCode s) :
    ∃ id, parseId s = .ret id ∧ id.toString = .ret s := by
  refine ⟨_, parseId_of_isCode h, ?_⟩
  have hlt := h.value_lt
  have hsum : rangeSize * ((codeValue s : ℤ) - starterRange).tdiv rangeSize +
      ((codeValue s : ℤ) - starterRange).tmod rangeSize + starterRange = codeValue s := by
    rw [Int.mul_tdiv_add_tmod]
    ring
  have hbase : ShortId.base10Id ⟨((codeValue s : ℤ) - starterRange).tdiv rangeSize,
      ((codeValue s : ℤ) - starterRange).tmod rangeSize⟩ = codeValue s := by
    rw [ShortId.base10Id, hsum]
    exact toInt64_of_isInt64 ⟨by omega, by omega⟩
  rw [ShortId.toString, hbase]
  exact h.base10ToBase62

/-- `ToString` throws on a negative number and does not end on one of eight digits. -/
theorem ShortId.toString_returns_iff (id : ShortId) :
    id.toString.Returns ↔ 0 ≤ id.base10Id ∧ id.base10Id < 62 ^ 7 := by
  simp only [Exec.Returns, ShortId.toString, base10ToBase62_eq_ret_iff]
  exact ⟨fun ⟨_, h0, h, _⟩ => ⟨h0, h⟩, fun ⟨h0, h⟩ => ⟨_, h0, h, rfl⟩⟩

/-- **The codec is a bijection.** -/
theorem shortIdCodec_bijective :
    (∀ id : ShortId, IsShardId id.range → 0 ≤ id.index → id.index < rangeSize →
      ∀ s, id.toString = .ret s → IsCode s ∧ parseId s = .ret id) ∧
    (∀ s, IsCode s → ∃ id, parseId s = .ret id ∧ id.toString = .ret s) ∧
    (∀ id id' : ShortId, IsShardId id.range → 0 ≤ id.index → id.index < rangeSize →
      IsShardId id'.range → 0 ≤ id'.index → id'.index < rangeSize →
      ∀ s, id.toString = .ret s → id'.toString = .ret s → id = id') ∧
    (∀ s s', IsCode s → IsCode s' → parseId s = parseId s' → s = s') := by
  have hround : ∀ id : ShortId, IsShardId id.range → 0 ≤ id.index → id.index < rangeSize →
      ∀ s, id.toString = .ret s → IsCode s ∧ parseId s = .ret id := by
    intro id hr h0 hi s h
    have hint : id.index < 2 ^ 31 := by unfold rangeSize at hi; omega
    exact ⟨(id.isCode_of_toString h).1, (parseId_toString_iff hr h0 hint h).mpr hi⟩
  refine ⟨hround, fun s => toString_parseId, ?_, ?_⟩
  · intro id id' hr h0 hi hr' h0' hi' s h h'
    have h1 := (hround id hr h0 hi s h).2
    have h2 := (hround id' hr' h0' hi' s h').2
    exact Exec.ret.inj (h1.symm.trans h2)
  · intro s s' h h' heq
    obtain ⟨id, h1, h2⟩ := toString_parseId h
    obtain ⟨id', h1', h2'⟩ := toString_parseId h'
    obtain rfl : id = id' := Exec.ret.inj (h1.symm.trans (heq.trans h1'))
    exact Exec.ret.inj (h2.symm.trans h2')

end Shortener.Codec
