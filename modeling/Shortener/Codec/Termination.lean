import Shortener.Codec.ShortId

/-!
# When `Base10ToBase62` ends

The second loop of `Base10ToBase62` pads while `Length != 7`. On a number of eight digits
it starts above seven and moves away from it. The guard only asks for a non-negative `long`,
and `ShardService.Initialize` (`Shortener.GrpcBackend/Services/ShardService.cs`, lines 55–66)
takes any shard id that the `Range` table holds.

* `terminates_iff`: the loops end, with seven characters, exactly below `62 ^ 7`.
* `prints_all_iff`: a shard prints all its short ids exactly up to number 342160.
-/

namespace Shortener.Codec

open Shortener.DotNet

/-- Both loops of `Base10ToBase62` end, and the result has seven characters. -/
def Terminates (base10 : ℤ) : Prop :=
  ∃ fuel base62, base10ToBase62Fuel fuel base10.toNat = some base62 ∧ base62.length = 7 ∧
    base10ToBase62 base10 = .ret base62

/-- `Index` of a short id runs over the range of its shard. -/
def IsIndex (index : ℤ) : Prop := 0 ≤ index ∧ index < rangeSize

instance (index : ℤ) : Decidable (IsIndex index) := inferInstanceAs (Decidable (_ ∧ _))

theorem lt_of_terminates {n : ℤ} (h : Terminates n) : n < 62 ^ 7 := by
  obtain ⟨fuel, base62, hfuel, -, -⟩ := h
  have hlt := (base10ToBase62Fuel_returns_iff n.toNat).mp ⟨fuel, base62, hfuel⟩
  omega

/-- The fuel that `base10ToBase62` uses is enough. -/
theorem terminates_of_lt {n : ℤ} (h0 : 0 ≤ n) (h : n < 62 ^ 7) : Terminates n := by
  have hret := base10ToBase62_eq_ret_iff.mpr ⟨h0, h, rfl⟩
  refine ⟨12, _, ?_, (isCode_of_base10ToBase62 hret).1.1, hret⟩
  have hle := Common.digits_length_le (by norm_num : 1 < 62) (show n.toNat < 62 ^ 7 by omega)
  rw [base10ToBase62Fuel_eq, if_pos ⟨by omega, by omega, by omega⟩]

/-- `ToString` of an id of a deployed shard. -/
theorem ShortId.toString_returns_iff_lt (id : ShortId) (hr : IsShardId id.range)
    (hi : IsIndex id.index) :
    id.toString.Returns ↔ rangeSize * id.range + id.index + starterRange < 62 ^ 7 := by
  unfold IsShardId at hr
  unfold IsIndex rangeSize at hi
  have hbase : id.base10Id = rangeSize * id.range + id.index + starterRange :=
    ShortId.base10Id_eq hr ⟨by omega, by omega⟩
  rw [ShortId.toString_returns_iff, hbase]
  unfold rangeSize starterRange
  omega

/-- The last shards have ids of eight digits. -/
theorem prints_all_iff {range : ℤ} (hr : IsShardId range) :
    (∀ index, IsIndex index → (ShortId.toString ⟨range, index⟩).Returns) ↔ range ≤ 342160 := by
  constructor
  · intro h
    have hlast : IsIndex (rangeSize - 1) := by decide
    have hlt := (ShortId.toString_returns_iff_lt ⟨range, rangeSize - 1⟩ hr hlast).mp (h _ hlast)
    unfold rangeSize starterRange at hlt
    simp only at hlt
    omega
  · intro hle index hi
    rw [ShortId.toString_returns_iff_lt ⟨range, index⟩ hr hi]
    unfold IsIndex rangeSize at hi
    unfold rangeSize starterRange
    simp only
    omega

/-- **When `Base10ToBase62` and `ToString` end.** -/
theorem terminates_iff (base10 : ℤ) (id : ShortId) :
    (IsInt64 base10 → 0 ≤ base10 → (Terminates base10 ↔ base10 < 62 ^ 7)) ∧
    (IsShardId id.range → IsIndex id.index →
      (id.toString.Returns ↔ rangeSize * id.range + id.index + starterRange < 62 ^ 7)) := by
  constructor
  · intro _ h0
    exact ⟨lt_of_terminates, terminates_of_lt h0⟩
  · intro hr hi
    exact id.toString_returns_iff_lt hr hi

/-- The largest number of seven digits, and an id of the last shard that prints all its ids. -/
theorem terminates_iff_sevenDigits :
    Terminates (62 ^ 7 - 1) ∧ (ShortId.toString ⟨342160, 9999999⟩).Returns := by
  obtain ⟨hnumber, hid⟩ := terminates_iff (62 ^ 7 - 1) ⟨342160, 9999999⟩
  constructor
  · exact (hnumber (by decide) (by decide)).mpr (by decide)
  · exact (hid (by decide) (by decide)).mpr (by decide)

/-- The first number of eight digits, and the first id of a shard that is accepted. -/
theorem not_terminates_eightDigits :
    (IsInt64 (62 ^ 7) ∧ (0 : ℤ) ≤ 62 ^ 7 ∧ ¬ Terminates (62 ^ 7)) ∧
      IsShardId 342162 ∧ IsIndex 0 ∧ ¬ (ShortId.toString ⟨342162, 0⟩).Returns := by
  refine ⟨⟨by decide, by decide, ?_⟩, by decide, by decide, ?_⟩
  · intro h
    exact absurd (lt_of_terminates h) (by decide)
  · rw [ShortId.toString_returns_iff_lt ⟨342162, 0⟩ (by decide) (by decide)]
    decide

end Shortener.Codec
