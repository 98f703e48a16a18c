import Mathlib

/-!
# Text functions that depend on tables of the runtime

A `string` is a `String`. Lower case and culture-sensitive comparison come from the
Unicode data of the runtime and from the culture of the process, so they are
parameters; nothing in this development depends on what they return.
-/

namespace Shortener.DotNet

/-- What the functions on strings take from the culture. -/
structure Globalization where
  /-- `string.ToLowerInvariant` -/
  toLowerInvariant : String → String
  /-- `s.StartsWith(value)` in the current culture -/
  startsWith : String → String → Bool

/-- The invariant globalization mode on ASCII text. -/
def Globalization.invariantMode : Globalization where
  toLowerInvariant := String.toLower
  startsWith s value := value.toList.isPrefixOf s.toList

/-- `char.IsWhiteSpace`. -/
def isWhiteSpace (c : Char) : Bool :=
  let n := c.toNat
  (9 ≤ n ∧ n ≤ 13) ∨ n ∈ [0x20, 0x85, 0xA0, 0x1680, 0x2028, 0x2029, 0x202F, 0x205F, 0x3000] ∨
    (0x2000 ≤ n ∧ n ≤ 0x200A)

/-- The rule `NotEmpty` of a validator: there is something else than white space. -/
def notEmpty (s : String) : Bool := s.toList.any fun c => !isWhiteSpace c

/-- Texts in front of the first delimiter are determined, and so is the rest. -/
theorem append_delimiter_inj {α : Type*} {c : α} {x y x' y' : List α} (hx : c ∉ x) (hx' : c ∉ x')
    (h : x ++ c :: y = x' ++ c :: y') : x = x' ∧ y = y' := by
  induction x generalizing x' with
  | nil =>
    cases x' with
    | nil => exact ⟨rfl, (List.cons.inj h).2⟩
    | cons a x' =>
      obtain ⟨rfl, -⟩ := List.cons.inj h
      exact absurd List.mem_cons_self hx'
  | cons a x ih =>
    cases x' with
    | nil =>
      obtain ⟨rfl, -⟩ := List.cons.inj h
      exact absurd List.mem_cons_self hx
    | cons a' x' =>
      obtain ⟨rfl, htail⟩ := List.cons.inj h
      obtain ⟨rfl, rfl⟩ := ih (List.not_mem_of_not_mem_cons hx) (List.not_mem_of_not_mem_cons hx') htail
      exact ⟨rfl, rfl⟩

end Shortener.DotNet
