import Shortener.DotNet.Exec

/-!
# Decimal integers

`int.TryParse` and `long.TryParse` in the invariant culture: white space, a sign, digits,
white space and null characters, in this order, of which only the digits are required.
An interpolated integer is printed as by `toString`.

* `tryParse_toString`: parsing what was printed gives the number back.
-/

namespace Shortener.DotNet

/-- The white space that `NumberStyles.Integer` allows around a number. -/
def isWhite (c : Char) : Bool := c = ' ' ∨ (9 ≤ c.toNat ∧ c.toNat ≤ 13)

/-- The sign, and what follows it. -/
def splitSign : List Char → Bool × List Char
  | '-' :: text => (true, text)
  | '+' :: text => (false, text)
  | text => (false, text)

/-- The number that `text` stands for, of any size. -/
def tryParse (text : List Char) : Option ℤ :=
  let (negative, text) := splitSign (text.dropWhile isWhite)
  let digits := text.takeWhile Char.isDigit
  let trailing := (text.dropWhile Char.isDigit).dropWhile isWhite
  if digits = [] ∨ ∃ c ∈ trailing, c.toNat ≠ 0 then none
  else
    let value : ℤ := Nat.ofDigitChars 10 digits 0
    some (if negative then -value else value)

/-- `int.TryParse`. -/
def tryParseInt32 (text : List Char) : Option ℤ := (tryParse text).filter (IsInt32 ·)

/-- `long.TryParse`. -/
def tryParseInt64 (text : List Char) : Option ℤ := (tryParse text).filter (IsInt64 ·)

variable {digits : List Char}

theorem isDigit_iff {c : Char} : c.isDigit ↔ 48 ≤ c.toNat ∧ c.toNat ≤ 57 := Char.isDigit_iff_toNat

theorem not_isWhite_of_isDigit {c : Char} (h : c.isDigit) : isWhite c = false := by
  obtain ⟨hlow, -⟩ := isDigit_iff.mp h
  have hspace : c ≠ ' ' := by
    rintro rfl
    exact absurd h (by decide)
  simp only [isWhite, hspace, false_or, decide_eq_false_iff_not]
  omega

/-- Digits after a sign, up to the end of the text. -/
theorem tryParse_of_splitSign {text : List Char} {negative : Bool}
    (hsign : splitSign (text.dropWhile isWhite) = (negative, digits)) (hne : digits ≠ [])
    (hdigits : ∀ c ∈ digits, c.isDigit) :
    tryParse text =
      some (if negative then -(Nat.ofDigitChars 10 digits 0 : ℤ) else Nat.ofDigitChars 10 digits 0) := by
  have htake : digits.takeWhile Char.isDigit = digits := List.takeWhile_eq_self_iff.mpr hdigits
  have hdrop : digits.dropWhile Char.isDigit = [] := List.dropWhile_eq_nil_iff.mpr hdigits
  simp [tryParse, hsign, htake, hdrop, hne]

theorem tryParse_digits (hne : digits ≠ []) (hdigits : ∀ c ∈ digits, c.isDigit) :
    tryParse digits = some (Nat.ofDigitChars 10 digits 0 : ℤ) := by
  obtain ⟨c, rest, rfl⟩ := List.exists_cons_of_ne_nil hne
  have hc := hdigits c List.mem_cons_self
  have hdrop : (c :: rest).dropWhile isWhite = c :: rest :=
    List.dropWhile_cons_of_neg (by simp [not_isWhite_of_isDigit hc])
  have hsign : splitSign (c :: rest) = (false, c :: rest) := by
    unfold splitSign
    split
    · next heq =>
      obtain ⟨rfl, -⟩ := List.cons.inj heq
      exact absurd hc (by decide)
    · next heq =>
      obtain ⟨rfl, -⟩ := List.cons.inj heq
      exact absurd hc (by decide)
    · rfl
  exact tryParse_of_splitSign (by rw [hdrop, hsign]) hne hdigits

theorem tryParse_minus (hne : digits ≠ []) (hdigits : ∀ c ∈ digits, c.isDigit) :
    tryParse ('-' :: digits) = some (-(Nat.ofDigitChars 10 digits 0 : ℤ)) :=
  tryParse_of_splitSign rfl hne hdigits

theorem isDigit_of_mem_toDigits {n : ℕ} : ∀ c ∈ Nat.toDigits 10 n, c.isDigit :=
  fun _ => Nat.isDigit_of_mem_toDigits (by omega) (by omega)

/-- The text of an integer: its digits, after a minus sign if it is negative. -/
theorem toList_toString (n : ℤ) :
    (toString n).toList = if n < 0 then '-' :: Nat.toDigits 10 n.natAbs else Nat.toDigits 10 n.natAbs := by
  cases n with
  | ofNat n =>
    rw [if_neg (by simp)]
    exact Nat.toList_repr
  | negSucc n =>
    rw [if_pos (Int.negSucc_lt_zero n)]
    show ("-" ++ Nat.repr (n + 1)).toList = _
    rw [String.toList_append, Nat.toList_repr]
    rfl

theorem tryParse_toString (n : ℤ) : tryParse (toString n).toList = some n := by
  rw [toList_toString]
  split_ifs with h
  · rw [tryParse_minus Nat.toDigits_ne_nil isDigit_of_mem_toDigits, Nat.ofDigitChars_ten_toDigits]
    congr 1
    omega
  · rw [tryParse_digits Nat.toDigits_ne_nil isDigit_of_mem_toDigits, Nat.ofDigitChars_ten_toDigits]
    congr 1
    omega

theorem tryParseInt32_toString {n : ℤ} (h : IsInt32 n) :
    tryParseInt32 (toString n).toList = some n := by
  rw [tryParseInt32, tryParse_toString, Option.filter_some, if_pos (by simpa using h)]

theorem tryParseInt64_toString {n : ℤ} (h : IsInt64 n) :
    tryParseInt64 (toString n).toList = some n := by
  rw [tryParseInt64, tryParse_toString, Option.filter_some, if_pos (by simpa using h)]

theorem isDigit_or_minus_of_mem_toString {n : ℤ} {c : Char} (h : c ∈ (toString n).toList) :
    c.isDigit ∨ c = '-' := by
  rw [toList_toString] at h
  split_ifs at h
  · rcases List.mem_cons.mp h with rfl | h
    · exact .inr rfl
    · exact .inl (isDigit_of_mem_toDigits c h)
  · exact .inl (isDigit_of_mem_toDigits c h)

/-- The text of an integer is ASCII and has no colon. -/
theorem of_mem_toString {n : ℤ} {c : Char} (h : c ∈ (toString n).toList) :
    c.toNat < 128 ∧ c ≠ ':' := by
  rcases isDigit_or_minus_of_mem_toString h with hc | rfl
  · obtain ⟨-, hhigh⟩ := isDigit_iff.mp hc
    refine ⟨by omega, ?_⟩
    rintro rfl
    exact absurd hc (by decide)
  · decide

/-- The text of an integer has no underscore. -/
theorem underscore_not_mem_toString (n : ℤ) : '_' ∉ (toString n).toList := by
  intro h
  rcases isDigit_or_minus_of_mem_toString h with hc | hc
  · exact absurd hc (by decide)
  · exact absurd hc (by decide)

end Shortener.DotNet
