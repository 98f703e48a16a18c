import Shortener.Common.Numeral
import Shortener.DotNet.Exec

/-!
# `UrlEncoder`

Model of `Shortener.Shared/Services/UrlEncoder.cs`. A `string` is a `String`, a
`long` an `ℤ`.

* `convert` and `base62ToBase10` throw on a character outside the alphabet.
* `Base10ToBase62` runs two loops. The second one tests `Length != 7`, so it does
  not end on a number of eight digits; both loops take fuel, and
  `base10ToBase62Fuel_returns_iff` says that the fuel `base10ToBase62` uses is
  enough whenever the loops end at all.

Results: `base62ToBase10_eq` and `base10ToBase62_eq_ret_iff` state both functions by
`valueOf` and `numeral` in base 62.
-/

namespace Shortener.Codec

open Shortener.Common Shortener.DotNet

/-! ## The alphabet -/

/-- `Elements`. -/
def elements : List Char :=
  "0123456789abcdefghijklmnopqrstuvwxyzABCDEFGHIJKLMNOPQRSTUVWXYZ".toList

/-- `RangeSize`. -/
def rangeSize : ℤ := 10000000

/-- `StarterRange`. -/
def starterRange : ℤ := 100000000000

/-- `Convert` (lines 45–52). -/
def convert (c : Char) : Exec ℤ :=
  if '0' ≤ c ∧ c ≤ '9' then .ret ((c.toNat : ℤ) - '0'.toNat)
  else if 'a' ≤ c ∧ c ≤ 'z' then .ret ((c.toNat : ℤ) - 'a'.toNat + 10)
  else if 'A' ≤ c ∧ c ≤ 'Z' then .ret ((c.toNat : ℤ) - 'A'.toNat + 36)
  else .throw (.argumentOutOfRange "c" s!"Invalid base62 character: {c}")

/-- The character class `[a-zA-Z0-9]`. -/
def IsBase62Char (c : Char) : Prop :=
  ('a' ≤ c ∧ c ≤ 'z') ∨ ('A' ≤ c ∧ c ≤ 'Z') ∨ ('0' ≤ c ∧ c ≤ '9')

instance (c : Char) : Decidable (IsBase62Char c) := inferInstanceAs (Decidable (_ ∨ _))

/-- `Base62Regex` is `^[a-zA-Z0-9]{7}$`. Without `RegexOptions.Multiline` the
    anchor `$` matches at the end and before a newline that ends the string. -/
def isValidBase62 (s : String) : Bool :=
  let line := if s.toList.getLast? = some '\n' then s.toList.dropLast else s.toList
  decide (line.length = 7) && line.all fun c => decide (IsBase62Char c)

/-! ## Decoding and encoding -/

/-- `Base62ToBase10` (lines 19–24), an unchecked left fold. -/
def base62ToBase10 (base62 : String) : Exec ℤ :=
  base62.toList.foldlM (fun current t => do return toInt64 (current * 62 + (← convert t))) 0

/-- `while (base10 != 0)` (lines 31–35). -/
def digitLoop : ℕ → ℕ → List Char → Option (List Char)
  | 0, _, _ => none
  | fuel + 1, base10, base62 =>
    if base10 ≠ 0 then digitLoop fuel (base10 / 62) (elements.getD (base10 % 62) '0' :: base62)
    else some base62

/-- `while (base62.Length != 7)` (lines 37–40). -/
def padLoop : ℕ → List Char → Option (List Char)
  | 0, _ => none
  | fuel + 1, base62 => if base62.length ≠ 7 then padLoop fuel ('0' :: base62) else some base62

/-- Both loops of `Base10ToBase62`, each with at most `fuel` tests of its condition. -/
def base10ToBase62Fuel (fuel : ℕ) (base10 : ℕ) : Option String := do
  let base62 ← digitLoop fuel base10 []
  let base62 ← padLoop fuel base62
  return String.ofList base62

/-- `Base10ToBase62` (lines 26–43). A `long` has at most 11 digits in base 62. -/
def base10ToBase62 (base10 : ℤ) : Exec String :=
  if base10 < 0 then
    .throw (.argumentOutOfRange "base10" s!"base10 ('{base10}') must be a non-negative value.")
  else
    match base10ToBase62Fuel 12 base10.toNat with
    | some base62 => .ret base62
    | none => .diverge

/-! ## The alphabet as digits -/

/-- The digit a character of the alphabet stands for. -/
def digitOf (c : Char) : ℕ :=
  match convert c with
  | .ret d => d.toNat
  | _ => 0

theorem length_elements : elements.length = 62 := by decide

theorem exists_digit {c : Char} (h : c ∈ elements) : ∃ d < 62, elements.getD d '0' = c := by
  obtain ⟨d, hd, rfl⟩ := List.mem_iff_getElem.mp h
  exact ⟨d, length_elements ▸ hd, List.getD_eq_getElem _ _ hd⟩

theorem elements_mem {d : ℕ} (h : d < 62) : elements.getD d '0' ∈ elements := by
  rw [List.getD_eq_getElem _ _ (length_elements.symm ▸ h)]
  exact List.getElem_mem _

theorem digitOf_elements {d : ℕ} (h : d < 62) : digitOf (elements.getD d '0') = d := by
  have hall : ∀ d < 62, digitOf (elements.getD d '0') = d := by decide +kernel
  exact hall d h

theorem elements_digitOf {c : Char} (h : c ∈ elements) : elements.getD (digitOf c) '0' = c := by
  obtain ⟨d, hd, rfl⟩ := exists_digit h
  rw [digitOf_elements hd]

theorem digitOf_lt {c : Char} (h : c ∈ elements) : digitOf c < 62 := by
  obtain ⟨d, hd, rfl⟩ := exists_digit h
  rwa [digitOf_elements hd]

theorem convert_of_mem {c : Char} (h : c ∈ elements) : convert c = .ret (digitOf c : ℤ) := by
  have hall : ∀ d < 62, convert (elements.getD d '0') = .ret (d : ℤ) := by decide +kernel
  obtain ⟨d, hd, rfl⟩ := exists_digit h
  rw [digitOf_elements hd, hall d hd]

theorem isBase62Char_iff_mem {c : Char} : IsBase62Char c ↔ c ∈ elements := by
  constructor
  · intro h
    have hlt : c.toNat < 128 := by
      have hle : c ≤ 'z' := by
        rcases h with h | h | h
        · exact h.2
        · exact h.2.trans (by decide)
        · exact h.2.trans (by decide)
      exact lt_of_le_of_lt (show c.toNat ≤ 'z'.toNat from hle) (by decide)
    have hall : ∀ n : Fin 128, IsBase62Char (Char.ofNat n) → Char.ofNat n ∈ elements := by
      decide +kernel
    have := hall ⟨c.toNat, hlt⟩
    simp only [Char.ofNat_toNat] at this
    exact this h
  · intro h
    have hall : ∀ d < 62, IsBase62Char (elements.getD d '0') := by decide +kernel
    obtain ⟨d, hd, rfl⟩ := exists_digit h
    exact hall d hd

/-- A digit list as a string of the alphabet. -/
def spell (ds : List ℕ) : List Char := ds.map fun d => elements.getD d '0'

theorem map_digitOf_spell {ds : List ℕ} (h : ∀ d ∈ ds, d < 62) :
    (spell ds).map digitOf = ds := by
  rw [spell, List.map_map]
  conv_rhs => rw [← List.map_id ds]
  exact List.map_congr_left fun d hd => digitOf_elements (h d hd)

theorem spell_map_digitOf {cs : List Char} (h : ∀ c ∈ cs, c ∈ elements) :
    spell (cs.map digitOf) = cs := by
  rw [spell, List.map_map]
  conv_rhs => rw [← List.map_id cs]
  exact List.map_congr_left fun c hc => elements_digitOf (h c hc)

theorem mem_elements_of_mem_spell {ds : List ℕ} (h : ∀ d ∈ ds, d < 62) :
    ∀ c ∈ spell ds, c ∈ elements := by
  intro c hc
  obtain ⟨d, hd, rfl⟩ := List.mem_map.mp hc
  exact elements_mem (h d hd)

/-! ## `Base62ToBase10` -/

/-- The seven digits of a code fit in a `long`, so the unchecked fold is exact. -/
theorem base62ToBase10_eq {s : String} (hs : ∀ c ∈ s.toList, c ∈ elements)
    (hlen : s.toList.length ≤ 7) :
    base62ToBase10 s = .ret (valueOf 62 (s.toList.map digitOf) : ℤ) := by
  unfold base62ToBase10
  generalize s.toList = cs at hs hlen
  induction cs using List.reverseRecOn with
  | nil => rfl
  | append_singleton cs c ih =>
    have hcs : ∀ c ∈ cs, c ∈ elements := fun c hc => hs c (List.mem_append_left _ hc)
    rw [List.length_append, List.length_singleton] at hlen
    have hlt : valueOf 62 (cs.map digitOf) < 62 ^ 6 := by
      refine lt_of_lt_of_le (valueOf_lt (by norm_num) ?_) (Nat.pow_le_pow_right (by norm_num) ?_)
      · intro d hd
        obtain ⟨c', hc', rfl⟩ := List.mem_map.mp hd
        exact digitOf_lt (hcs c' hc')
      · rw [List.length_map]; omega
    have hd := digitOf_lt (hs c (by simp))
    have hval : valueOf 62 ((cs ++ [c]).map digitOf) = valueOf 62 (cs.map digitOf) * 62 + digitOf c := by
      simp [valueOf]
    rw [List.foldlM_append, ih hcs (by omega)]
    simp only [Exec.ret_bind, List.foldlM_cons, List.foldlM_nil,
      convert_of_mem (hs c (by simp)), Exec.pure_eq, hval]
    rw [toInt64_of_isInt64 ⟨by omega, by omega⟩]
    push_cast
    rfl

/-! ## `Base10ToBase62` -/

theorem digitLoop_eq (fuel n : ℕ) (base62 : List Char) :
    digitLoop fuel n base62 =
      if (Nat.digits 62 n).length < fuel then some (spell (Nat.digits 62 n).reverse ++ base62)
      else none := by
  induction fuel generalizing n base62 with
  | zero => simp [digitLoop]
  | succ fuel ih =>
    rw [digitLoop]
    by_cases hn : n = 0
    · subst hn
      simp [spell]
    · rw [if_pos hn, ih, Nat.digits_def' (by norm_num) (Nat.pos_of_ne_zero hn)]
      simp [spell]

/-- The second loop ends exactly on at most seven characters. -/
theorem padLoop_eq (fuel : ℕ) (base62 : List Char) :
    padLoop fuel base62 =
      if base62.length ≤ 7 ∧ 7 - base62.length < fuel then
        some (List.replicate (7 - base62.length) '0' ++ base62)
      else none := by
  induction fuel generalizing base62 with
  | zero => simp [padLoop]
  | succ fuel ih =>
    rw [padLoop]
    by_cases h : base62.length = 7
    · simp [h]
    · rw [if_pos h, ih, List.length_cons]
      by_cases hle : base62.length ≤ 7
      · have hsub : 7 - base62.length = (7 - (base62.length + 1)) + 1 := by omega
        rw [hsub, List.replicate_succ', List.append_assoc, List.singleton_append]
        exact if_congr (by omega) rfl rfl
      · rw [if_neg (by omega), if_neg (by omega)]

theorem spell_replicate_zero (k : ℕ) (ds : List ℕ) :
    spell (List.replicate k 0 ++ ds) = List.replicate k '0' ++ spell ds := by
  rw [spell, List.map_append, List.map_replicate]
  rfl

theorem base10ToBase62Fuel_eq (fuel n : ℕ) :
    base10ToBase62Fuel fuel n =
      if n < 62 ^ 7 ∧ (Nat.digits 62 n).length < fuel ∧ 7 - (Nat.digits 62 n).length < fuel then
        some (String.ofList (spell (numeral 62 7 n)))
      else none := by
  have hlen : (spell (Nat.digits 62 n).reverse ++ []).length = (Nat.digits 62 n).length := by
    simp [spell]
  have hle := Nat.digits_length_le_iff (by norm_num : 1 < 62) n (k := 7)
  rw [base10ToBase62Fuel, digitLoop_eq]
  split_ifs with h1 h2 h2
  · simp only [Option.bind_eq_bind, Option.bind_some, padLoop_eq, hlen]
    rw [if_pos ⟨hle.mpr h2.1, h2.2.2⟩, List.append_nil, ← spell_replicate_zero]
    rfl
  · simp only [Option.bind_eq_bind, Option.bind_some, padLoop_eq, hlen]
    rw [if_neg fun h => h2 ⟨hle.mp h.1, h1, h.2⟩]
    rfl
  · exact absurd h2.2.1 h1
  · rfl

/-- Fuel 12 is enough for both loops whenever they end. -/
theorem base10ToBase62Fuel_returns_iff (n : ℕ) :
    (∃ fuel s, base10ToBase62Fuel fuel n = some s) ↔ n < 62 ^ 7 := by
  constructor
  · rintro ⟨fuel, s, h⟩
    rw [base10ToBase62Fuel_eq] at h
    split_ifs at h with hn
    exact hn.1
  · intro hn
    have hle := digits_length_le (by norm_num : 1 < 62) hn
    exact ⟨12, _, by rw [base10ToBase62Fuel_eq, if_pos ⟨hn, by omega, by omega⟩]⟩

theorem base10ToBase62_eq_ret_iff {n : ℤ} {s : String} :
    base10ToBase62 n = .ret s ↔
      0 ≤ n ∧ n < 62 ^ 7 ∧ s = String.ofList (spell (numeral 62 7 n.toNat)) := by
  unfold base10ToBase62
  by_cases h0 : n < 0
  · rw [if_pos h0]
    simp only [reduceCtorEq, false_iff]
    omega
  · rw [if_neg h0, base10ToBase62Fuel_eq]
    by_cases hn : n.toNat < 62 ^ 7
    · have hle := digits_length_le (by norm_num : 1 < 62) hn
      rw [if_pos ⟨hn, by omega, by omega⟩]
      simp only [Exec.ret.injEq, @eq_comm _ s]
      constructor
      · exact fun h => ⟨by omega, by omega, h⟩
      · exact fun h => h.2.2
    · rw [if_neg fun h => hn h.1]
      simp only [reduceCtorEq, false_iff]
      omega

end Shortener.Codec
