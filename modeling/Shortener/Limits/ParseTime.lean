import Shortener.DotNet.Integer
import Shortener.Limits.RateLimiter

/-!
# The seconds of a window

`RateLimitRule.WindowSeconds` and `ParseTime`
(`Shortener.FrontendShared/Services/RateLimiterService.cs`, lines 11–71). `int.Parse` refuses a
number above `int.MaxValue`; the product with the seconds of the unit is unchecked, and a number
may be 0.

* `firstMatch_eq_some_iff`: the match that `ParseTime` reads is the leftmost one.
* `windowSeconds_exact_iff`: the getter returns the seconds of the first match, and the script
  keeps what is younger, exactly if these seconds are at least 1 and fit an `int`.
-/

namespace Shortener.Limits

open Shortener.DotNet

/-! ## `ParseTime` -/

/-- The last character of a time. -/
inductive TimeUnit
  | s
  | m
  | h
  | d
  deriving DecidableEq, Repr

/-- `(int)unit`. -/
def TimeUnit.toInt : TimeUnit → ℤ
  | s => 1
  | m => 60
  | h => 3600
  | d => 86400

/-- `Enum.Parse<TimeUnit>`; of one letter the pattern lets through no other. -/
def TimeUnit.parse : Char → Option TimeUnit
  | 's' => some .s
  | 'm' => some .m
  | 'h' => some .h
  | 'd' => some .d
  | _ => none

/-- The number and the unit of a match of `[0-9]+(s|m|d|h)` that starts with `text`. To give
    back a digit would put a digit where the unit has to be. -/
def matchHere (text : List Char) : Option (List Char × TimeUnit) :=
  match text.takeWhile Char.isDigit, text.dropWhile Char.isDigit with
  | [], _ => none
  | _ :: _, [] => none
  | digit :: digits, c :: _ => (TimeUnit.parse c).map (digit :: digits, ·)

/-- `s_timePattern.Match`. -/
def firstMatch : List Char → Option (List Char × TimeUnit)
  | [] => none
  | c :: text => matchHere (c :: text) <|> firstMatch text

/-- What `ParseTime` throws. -/
inductive ParseTimeException
  | argument (message : String)
  | overflow
  deriving DecidableEq, Repr

/-- `ParseTime`. -/
def parseTime (timeStr : String) : Except ParseTimeException ℤ :=
  match firstMatch timeStr.toList with
  | none => .error <| .argument <| "Rate limit window was not provided or was not " ++
      "properly formatted, must be of the form ([0-9]+(s|m|d|h))"
  | some (digits, unit) =>
    match tryParseInt32 digits with
    | none => .error .overflow
    | some num => .ok (toInt32 (num * unit.toInt))

/-- The getter `WindowSeconds` of a rule with the field `_windowSeconds`; what it returns is also
    the field's next value. -/
def getWindowSeconds (window : String) (windowSeconds : ℤ) : Except ParseTimeException ℤ :=
  if windowSeconds < 1 then parseTime window else .ok windowSeconds

/-- What the getter returns after `n` earlier calls; the field starts with 0. -/
def readWindowSeconds (window : String) : ℕ → Except ParseTimeException ℤ
  | 0 => getWindowSeconds window 0
  | n + 1 => readWindowSeconds window n >>= getWindowSeconds window

variable {text digits : List Char} {unit : TimeUnit} {window : String} {n : ℕ} {v : ℤ}

/-- To parse again gives the same value again. -/
theorem readWindowSeconds_eq (window : String) (n : ℕ) :
    readWindowSeconds window n = parseTime window := by
  induction n with
  | zero => rfl
  | succ n ih =>
    rw [readWindowSeconds, ih]
    cases h : parseTime window with
    | error e => rfl
    | ok v =>
      show getWindowSeconds window v = .ok v
      rw [getWindowSeconds, h, ite_self]

/-! ## The first match -/

/-- `text` starts with a match of the pattern. -/
def MatchesHere (text digits : List Char) (unit : TimeUnit) : Prop :=
  digits ≠ [] ∧ (∀ c ∈ digits, c.isDigit) ∧
    ∃ c rest, text = digits ++ c :: rest ∧ TimeUnit.parse c = some unit

/-- The match that starts first. -/
def FirstMatch (text digits : List Char) (unit : TimeUnit) : Prop :=
  ∃ skipped rest, text = skipped ++ rest ∧ MatchesHere rest digits unit ∧
    ∀ earlier later, skipped = earlier ++ later → later ≠ [] →
      ∀ digits' unit', ¬ MatchesHere (later ++ rest) digits' unit'

theorem not_isDigit_of_parse {c : Char} (h : TimeUnit.parse c = some unit) : ¬ c.isDigit := by
  unfold TimeUnit.parse at h
  split at h
  · decide
  · decide
  · decide
  · decide
  · cases h

theorem matchHere_eq_some_iff : matchHere text = some (digits, unit) ↔ MatchesHere text digits unit := by
  constructor
  · intro h
    have htext := List.takeWhile_append_dropWhile (p := Char.isDigit) (l := text)
    have hdigits : ∀ c ∈ text.takeWhile Char.isDigit, c.isDigit := fun c hc =>
      List.mem_takeWhile_imp hc
    unfold matchHere at h
    split at h
    · cases h
    · cases h
    · next digit digits' c rest htake hdrop =>
      obtain ⟨unit', hunit, heq⟩ := Option.map_eq_some_iff.mp h
      obtain ⟨rfl, rfl⟩ := Prod.mk.inj heq
      rw [htake, hdrop] at htext
      rw [htake] at hdigits
      exact ⟨List.cons_ne_nil _ _, hdigits, c, rest, htext.symm, hunit⟩
  · rintro ⟨hne, hdigits, c, rest, rfl, hunit⟩
    have hc : ¬ c.isDigit := not_isDigit_of_parse hunit
    have htake : (digits ++ c :: rest).takeWhile Char.isDigit = digits := by
      rw [List.takeWhile_append_of_pos hdigits, List.takeWhile_cons_of_neg hc, List.append_nil]
    have hdrop : (digits ++ c :: rest).dropWhile Char.isDigit = c :: rest := by
      rw [List.dropWhile_append_of_pos hdigits, List.dropWhile_cons_of_neg hc]
    obtain ⟨digit, digits, rfl⟩ := List.exists_cons_of_ne_nil hne
    simp only [matchHere, htake, hdrop, hunit, Option.map_some]

theorem firstMatch_eq_some_iff : firstMatch text = some (digits, unit) ↔ FirstMatch text digits unit := by
  induction text with
  | nil =>
    constructor
    · intro h
      cases h
    · rintro ⟨skipped, rest, htext, ⟨-, -, c, rest', hrest, -⟩, -⟩
      obtain ⟨-, rfl⟩ := List.append_eq_nil_iff.mp htext.symm
      exact absurd hrest.symm (by simp)
  | cons c text ih =>
    rw [firstMatch, Option.orElse_eq_orElse, Option.orElse_eq_or, Option.or_eq_some_iff,
      matchHere_eq_some_iff, ih]
    constructor
    · rintro (h | ⟨hnone, skipped, rest, rfl, hrest, hfirst⟩)
      · refine ⟨[], c :: text, rfl, h, ?_⟩
        intro earlier later hskipped hlater
        exact absurd (List.append_eq_nil_iff.mp hskipped.symm).2 hlater
      · refine ⟨c :: skipped, rest, rfl, hrest, ?_⟩
        intro earlier later hskipped hlater digits' unit' hmatch
        cases earlier with
        | nil =>
          -- the text itself has no match at its start
          obtain rfl : c :: skipped = later := hskipped
          rw [← matchHere_eq_some_iff, List.cons_append, hnone] at hmatch
          cases hmatch
        | cons c' earlier =>
          exact hfirst earlier later (List.cons.inj hskipped).2 hlater digits' unit' hmatch
    · rintro ⟨skipped, rest, htext, hrest, hfirst⟩
      cases skipped with
      | nil =>
        obtain rfl : c :: text = rest := htext
        exact .inl hrest
      | cons c' skipped =>
        obtain ⟨rfl, rfl⟩ := List.cons.inj htext
        refine .inr ⟨?_, skipped, rest, rfl, hrest, ?_⟩
        · rw [Option.eq_none_iff_forall_ne_some]
          rintro ⟨digits', unit'⟩ hmatch
          exact hfirst [] (c :: skipped) rfl (List.cons_ne_nil _ _) digits' unit'
            (matchHere_eq_some_iff.mp hmatch)
        · intro earlier later hskipped
          exact hfirst (c :: earlier) later (by rw [hskipped, List.cons_append])

/-! ## The window -/

/-- The seconds that a match asks for. -/
def seconds (digits : List Char) (unit : TimeUnit) : ℤ :=
  (Nat.ofDigitChars 10 digits 0 : ℤ) * unit.toInt

/-- `windowSeconds` is the window asked for, and the script trims nothing that is younger. -/
def KeepsWindow (asked windowSeconds : ℤ) : Prop :=
  windowSeconds = asked ∧ 1 ≤ windowSeconds ∧
    ∀ (now : Time) (db : Redis) (w : Window), w.window = windowSeconds →
      (now.seconds : ℤ) - w.window < now.seconds ∧
        ∀ entry ∈ (db w.key).entries, now.seconds - entry.score < asked →
          entry ∈ (trim now db w).entries

theorem keepsWindow_iff {asked windowSeconds : ℤ} :
    KeepsWindow asked windowSeconds ↔ windowSeconds = asked ∧ 1 ≤ asked := by
  constructor
  · rintro ⟨rfl, hpos, -⟩
    exact ⟨rfl, hpos⟩
  · rintro ⟨rfl, hpos⟩
    refine ⟨rfl, hpos, ?_⟩
    rintro now db w rfl
    refine ⟨by omega, ?_⟩
    intro entry hentry hage
    exact mem_entries_zremrangebyscore_of_lt hentry (by omega)

/-- What `ParseTime` returns for its first match. -/
theorem parseTime_eq_ok_iff (hmatch : FirstMatch window.toList digits unit) :
    parseTime window = .ok v ↔
      (Nat.ofDigitChars 10 digits 0 : ℤ) < 2 ^ 31 ∧ toInt32 (seconds digits unit) = v := by
  obtain ⟨skipped, rest, -, ⟨hne, hdigits, -⟩, -⟩ := id hmatch
  have hparse : tryParseInt32 digits =
      if (Nat.ofDigitChars 10 digits 0 : ℤ) < 2 ^ 31 then some (Nat.ofDigitChars 10 digits 0 : ℤ)
      else none := by
    have hiff : IsInt32 (Nat.ofDigitChars 10 digits 0 : ℤ) ↔
        (Nat.ofDigitChars 10 digits 0 : ℤ) < 2 ^ 31 := by
      unfold IsInt32
      omega
    rw [tryParseInt32, tryParse_digits hne hdigits, Option.filter_some]
    simp only [decide_eq_true_eq, hiff]
  by_cases h : (Nat.ofDigitChars 10 digits 0 : ℤ) < 2 ^ 31
  · rw [if_pos h] at hparse
    simp only [parseTime, firstMatch_eq_some_iff.mpr hmatch, hparse, Except.ok.injEq, h, true_and]
    rfl
  · rw [if_neg h] at hparse
    simp only [parseTime, firstMatch_eq_some_iff.mpr hmatch, hparse, h, false_and, reduceCtorEq]

/-- **A window is kept exactly if its seconds are at least 1 and fit an `int`.** -/
theorem windowSeconds_exact_iff (hmatch : FirstMatch window.toList digits unit)
    (hreturns : readWindowSeconds window n = .ok v) :
    KeepsWindow (seconds digits unit) v ↔ 1 ≤ seconds digits unit ∧ seconds digits unit < 2 ^ 31 := by
  rw [readWindowSeconds_eq, parseTime_eq_ok_iff hmatch] at hreturns
  obtain ⟨-, rfl⟩ := hreturns
  rw [keepsWindow_iff]
  constructor
  · rintro ⟨heq, hpos⟩
    have hint := isInt32_toInt32 (seconds digits unit)
    rw [heq] at hint
    exact ⟨hpos, hint.2⟩
  · rintro ⟨hpos, hlt⟩
    exact ⟨toInt32_of_isInt32 ⟨by omega, hlt⟩, hpos⟩

/-- An hour. -/
theorem windowSeconds_exact_hour : KeepsWindow 3600 3600 := by
  have hmatch : FirstMatch "1h".toList ['1'] .h := firstMatch_eq_some_iff.mp (by decide)
  have hreturns : readWindowSeconds "1h" 1 = .ok 3600 := by
    rw [readWindowSeconds_eq, parseTime_eq_ok_iff hmatch]
    decide
  exact (windowSeconds_exact_iff hmatch hreturns).mpr (by decide)

/-- 25000 days wrap around to a window of minus 68 years, in which every request is old. -/
theorem windowSeconds_25000d :
    ¬ ∀ (window : String) (digits : List Char) (unit : TimeUnit) (n : ℕ) (v : ℤ),
      FirstMatch window.toList digits unit → readWindowSeconds window n = .ok v →
        KeepsWindow (seconds digits unit) v := by
  intro h
  have hmatch : FirstMatch "25000d".toList ['2', '5', '0', '0', '0'] .d :=
    firstMatch_eq_some_iff.mp (by decide)
  have hreturns : readWindowSeconds "25000d" 0 = .ok (-2134967296) := by
    rw [readWindowSeconds_eq, parseTime_eq_ok_iff hmatch]
    decide
  exact absurd (h _ _ _ _ _ hmatch hreturns).2.1 (by decide)

end Shortener.Limits
