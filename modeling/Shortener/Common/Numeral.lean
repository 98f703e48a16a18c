import Mathlib

/-!
# Big-endian numerals of a fixed width

A positional code writes a number as `w` digits in base `b`, most significant
digit first, padded with zeros on the left. `numeral b w n` is that digit list and
`valueOf b ds` reads a digit list back with the left fold a decoder uses.

`valueOf_numeral` and `numeral_valueOf` say that the two are inverse bijections
between `[0, b ^ w)` and the lists of `w` digits below `b`.
-/

namespace Shortener.Common

variable {b w n : ℕ} {ds : List ℕ}

/-- The value of a big-endian digit list. -/
def valueOf (b : ℕ) (ds : List ℕ) : ℕ := ds.foldl (fun x d => x * b + d) 0

/-- The digits of `n`, most significant first, padded to width `w`. -/
def numeral (b w n : ℕ) : List ℕ :=
  List.replicate (w - (Nat.digits b n).length) 0 ++ (Nat.digits b n).reverse

theorem valueOf_eq_ofDigits (b : ℕ) (ds : List ℕ) :
    valueOf b ds = Nat.ofDigits b ds.reverse := by
  induction ds using List.reverseRecOn with
  | nil => rfl
  | append_singleton ds d ih =>
    rw [valueOf, List.foldl_append, List.reverse_append, List.reverse_singleton,
      List.singleton_append, Nat.ofDigits_cons, ← ih]
    simp only [List.foldl_cons, List.foldl_nil, valueOf]
    ring

theorem valueOf_lt (hb : 1 < b) (h : ∀ d ∈ ds, d < b) : valueOf b ds < b ^ ds.length := by
  rw [valueOf_eq_ofDigits, ← List.length_reverse]
  exact Nat.ofDigits_lt_base_pow_length hb fun d hd => h d (List.mem_reverse.mp hd)

theorem digits_length_le (hb : 1 < b) (hn : n < b ^ w) : (Nat.digits b n).length ≤ w :=
  (Nat.digits_length_le_iff hb n).mpr hn

theorem length_numeral (hb : 1 < b) (hn : n < b ^ w) : (numeral b w n).length = w := by
  have := digits_length_le hb hn
  simp only [numeral, List.length_append, List.length_replicate, List.length_reverse]
  omega

theorem numeral_lt (hb : 1 < b) : ∀ d ∈ numeral b w n, d < b := by
  intro d hd
  rcases List.mem_append.mp hd with h | h
  · rw [List.eq_of_mem_replicate h]; omega
  · exact Nat.digits_lt_base hb (List.mem_reverse.mp h)

theorem valueOf_numeral (b w n : ℕ) : valueOf b (numeral b w n) = n := by
  rw [valueOf_eq_ofDigits, numeral, List.reverse_append, List.reverse_reverse,
    List.reverse_replicate, Nat.ofDigits_append, Nat.ofDigits_digits, Nat.ofDigits_replicate_zero]
  simp

/-- Digit lists of the same width with the same value are equal. -/
theorem valueOf_inj (hb : 1 < b) {ds' : List ℕ} (hlen : ds.length = ds'.length)
    (h : ∀ d ∈ ds, d < b) (h' : ∀ d ∈ ds', d < b) (hv : valueOf b ds = valueOf b ds') :
    ds = ds' := by
  rw [valueOf_eq_ofDigits, valueOf_eq_ofDigits] at hv
  refine List.reverse_injective (Nat.ofDigits_inj_of_len_eq hb (by simpa using hlen) ?_ ?_ hv)
  · exact fun d hd => h d (List.mem_reverse.mp hd)
  · exact fun d hd => h' d (List.mem_reverse.mp hd)

theorem numeral_valueOf (hb : 1 < b) (hw : ds.length = w) (h : ∀ d ∈ ds, d < b) :
    numeral b w (valueOf b ds) = ds := by
  have hlt : valueOf b ds < b ^ w := hw ▸ valueOf_lt hb h
  exact valueOf_inj hb (by rw [length_numeral hb hlt, hw]) (numeral_lt hb) h (valueOf_numeral b w _)

end Shortener.Common
