import Mathlib

/-!
# UTF-8 and Base64

`Encoding.UTF8` and `Convert.ToBase64String` / `Convert.FromBase64String`. A byte is a
natural number below 256 and a text a list of characters.

* `utf8Decode_ascii`: ASCII text is its own encoding.
* `fromBase64_toBase64`: decoding is a left inverse of encoding.
-/

namespace Shortener.DotNet

/-! ## UTF-8 -/

/-- `Encoding.UTF8.GetBytes`. -/
def utf8Encode (text : List Char) : List ℕ :=
  text.flatMap fun c => (String.utf8EncodeChar c).map UInt8.toNat

/-- A character of which the first bytes were read: the number of bytes to come, the range
    of the next one, and the code point so far. -/
structure PartialChar where
  needed : ℕ
  low : ℕ
  high : ℕ
  codePoint : ℕ

/-- U+FFFD. -/
def replacementChar : Char := Char.ofNat 0xFFFD

/-- A byte at the start of a character. -/
def utf8First (byte : ℕ) : List Char × Option PartialChar :=
  if byte < 0x80 then ([Char.ofNat byte], none)
  else if 0xC2 ≤ byte ∧ byte ≤ 0xDF then ([], some ⟨1, 0x80, 0xBF, byte - 0xC0⟩)
  else if byte = 0xE0 then ([], some ⟨2, 0xA0, 0xBF, 0⟩)
  else if byte = 0xED then ([], some ⟨2, 0x80, 0x9F, 0xD⟩)
  else if 0xE1 ≤ byte ∧ byte ≤ 0xEF then ([], some ⟨2, 0x80, 0xBF, byte - 0xE0⟩)
  else if byte = 0xF0 then ([], some ⟨3, 0x90, 0xBF, 0⟩)
  else if 0xF1 ≤ byte ∧ byte ≤ 0xF3 then ([], some ⟨3, 0x80, 0xBF, byte - 0xF0⟩)
  else if byte = 0xF4 then ([], some ⟨3, 0x80, 0x8F, 4⟩)
  else ([replacementChar], none)

/-- A byte after the first bytes of a character, which are replaced if it does not fit. -/
def utf8Next (p : PartialChar) (byte : ℕ) : List Char × Option PartialChar :=
  if p.low ≤ byte ∧ byte ≤ p.high then
    let codePoint := p.codePoint * 64 + (byte - 0x80)
    if p.needed = 1 then ([Char.ofNat codePoint], none)
    else ([], some ⟨p.needed - 1, 0x80, 0xBF, codePoint⟩)
  else (replacementChar :: (utf8First byte).1, (utf8First byte).2)

/-- The rest of the text, after the first bytes of a character if there are any. -/
def utf8DecodeFrom : Option PartialChar → List ℕ → List Char
  | none, [] => []
  | some _, [] => [replacementChar]
  | none, byte :: bytes => (utf8First byte).1 ++ utf8DecodeFrom (utf8First byte).2 bytes
  | some p, byte :: bytes => (utf8Next p byte).1 ++ utf8DecodeFrom (utf8Next p byte).2 bytes

/-- `Encoding.UTF8.GetString`. -/
def utf8Decode (bytes : List ℕ) : List Char := utf8DecodeFrom none bytes

theorem utf8Encode_ascii {text : List Char} (h : ∀ c ∈ text, c.toNat < 128) :
    utf8Encode text = text.map Char.toNat := by
  induction text with
  | nil => rfl
  | cons c text ih =>
    obtain ⟨hc, htext⟩ := List.forall_mem_cons.mp h
    have hsize : c.utf8Size = 1 := Char.utf8Size_eq_one_iff.mpr (by
      rw [UInt32.le_iff_toNat_le]
      exact Nat.le_of_lt_succ hc)
    have hbyte : c.val.toUInt8.toNat = c.toNat := by
      rw [UInt32.toNat_toUInt8]
      exact Nat.mod_eq_of_lt (by show c.toNat < 256; omega)
    rw [utf8Encode, List.flatMap_cons, String.utf8EncodeChar_eq_singleton hsize, List.map_singleton,
      hbyte, List.map_cons, ← ih htext]
    rfl

theorem utf8Decode_ascii {text : List Char} (h : ∀ c ∈ text, c.toNat < 128) :
    utf8Decode (text.map Char.toNat) = text := by
  unfold utf8Decode
  induction text with
  | nil => rfl
  | cons c text ih =>
    obtain ⟨hc, htext⟩ := List.forall_mem_cons.mp h
    rw [List.map_cons, utf8DecodeFrom, utf8First, if_pos hc, ih htext, Char.ofNat_toNat]
    rfl

/-! ## Base64 -/

/-- The characters of base64, by their numbers. -/
def base64Alphabet : List Char :=
  "ABCDEFGHIJKLMNOPQRSTUVWXYZabcdefghijklmnopqrstuvwxyz0123456789+/".toList

/-- The character of a number below 64. -/
def base64Char (n : ℕ) : Char := base64Alphabet.getD n '='

/-- The number of a character of the alphabet. -/
def base64Value (c : Char) : Option ℕ := base64Alphabet.idxOf? c

/-- `Convert.ToBase64String`. -/
def toBase64 : List ℕ → List Char
  | [] => []
  | [a] => [base64Char (a / 4), base64Char (a % 4 * 16), '=', '=']
  | [a, b] => [base64Char (a / 4), base64Char (a % 4 * 16 + b / 16), base64Char (b % 16 * 4), '=']
  | a :: b :: c :: bytes =>
    base64Char (a / 4) :: base64Char (a % 4 * 16 + b / 16) :: base64Char (b % 16 * 4 + c / 64) ::
      base64Char (c % 64) :: toBase64 bytes

/-- The groups of four characters, of which the last may be padded. -/
def fromBase64Groups : List Char → Option (List ℕ)
  | [] => some []
  | w :: x :: y :: z :: text => do
    let w ← base64Value w
    let x ← base64Value x
    if z = '=' ∧ text = [] then
      if y = '=' then return [w * 4 + x / 16]
      else
        let y ← base64Value y
        return [w * 4 + x / 16, x % 16 * 16 + y / 4]
    else
      let y ← base64Value y
      let z ← base64Value z
      let bytes ← fromBase64Groups text
      return (w * 4 + x / 16) :: (x % 16 * 16 + y / 4) :: (y % 4 * 64 + z) :: bytes
  | _ => none

/-- The white space that `FromBase64String` skips. -/
def isBase64White (c : Char) : Bool := [' ', '\t', '\n', '\r'].contains c

/-- `Convert.FromBase64String`, or nothing if it throws. -/
def fromBase64 (text : List Char) : Option (List ℕ) :=
  fromBase64Groups (text.filter fun c => !isBase64White c)

theorem base64Value_base64Char : ∀ n < 64, base64Value (base64Char n) = some n := by
  decide +kernel

theorem base64Char_ne_pad : ∀ n < 64, base64Char n ≠ '=' := by decide +kernel

theorem not_isBase64White_base64Char : ∀ n < 64, isBase64White (base64Char n) = false := by
  decide +kernel

theorem fromBase64Groups_toBase64 {bytes : List ℕ} (h : ∀ byte ∈ bytes, byte < 256) :
    fromBase64Groups (toBase64 bytes) = some bytes := by
  induction bytes using toBase64.induct with
  | case1 => rw [toBase64, fromBase64Groups]
  | case2 a =>
    have ha : a < 256 := h a (by simp)
    simp [toBase64, fromBase64Groups, base64Value_base64Char (a / 4) (by omega),
      base64Value_base64Char (a % 4 * 16) (by omega)]
    omega
  | case3 a b =>
    have ha : a < 256 := h a (by simp)
    have hb : b < 256 := h b (by simp)
    simp [toBase64, fromBase64Groups, base64Value_base64Char (a / 4) (by omega),
      base64Value_base64Char (a % 4 * 16 + b / 16) (by omega),
      base64Value_base64Char (b % 16 * 4) (by omega), base64Char_ne_pad (b % 16 * 4) (by omega)]
    omega
  | case4 a b c bytes ih =>
    have ha : a < 256 := h a (by simp)
    have hb : b < 256 := h b (by simp)
    have hc : c < 256 := h c (by simp)
    have hrest := ih fun byte hbyte => h byte (by simp [hbyte])
    simp [toBase64, fromBase64Groups, base64Value_base64Char (a / 4) (by omega),
      base64Value_base64Char (a % 4 * 16 + b / 16) (by omega),
      base64Value_base64Char (b % 16 * 4 + c / 64) (by omega),
      base64Value_base64Char (c % 64) (by omega), base64Char_ne_pad (c % 64) (by omega), hrest]
    omega

theorem not_isBase64White_toBase64 {bytes : List ℕ} (h : ∀ byte ∈ bytes, byte < 256) :
    ∀ c ∈ toBase64 bytes, isBase64White c = false := by
  have hpad : isBase64White '=' = false := rfl
  induction bytes using toBase64.induct with
  | case1 => simp [toBase64]
  | case2 a =>
    have ha : a < 256 := h a (by simp)
    simp [toBase64, not_isBase64White_base64Char (a / 4) (by omega),
      not_isBase64White_base64Char (a % 4 * 16) (by omega), hpad]
  | case3 a b =>
    have ha : a < 256 := h a (by simp)
    have hb : b < 256 := h b (by simp)
    simp [toBase64, not_isBase64White_base64Char (a / 4) (by omega),
      not_isBase64White_base64Char (a % 4 * 16 + b / 16) (by omega),
      not_isBase64White_base64Char (b % 16 * 4) (by omega), hpad]
  | case4 a b c bytes ih =>
    have ha : a < 256 := h a (by simp)
    have hb : b < 256 := h b (by simp)
    have hrest := ih fun byte hbyte => h byte (by simp [hbyte])
    simp only [toBase64, List.forall_mem_cons]
    exact ⟨not_isBase64White_base64Char _ (by omega), not_isBase64White_base64Char _ (by omega),
      not_isBase64White_base64Char _ (by have := h c (by simp); omega),
      not_isBase64White_base64Char _ (by omega), hrest⟩

theorem fromBase64_toBase64 {bytes : List ℕ} (h : ∀ byte ∈ bytes, byte < 256) :
    fromBase64 (toBase64 bytes) = some bytes := by
  have hfilter : (toBase64 bytes).filter (fun c => !isBase64White c) = toBase64 bytes :=
    List.filter_eq_self.mpr fun c hc => by rw [not_isBase64White_toBase64 h c hc]; rfl
  rw [fromBase64, hfilter, fromBase64Groups_toBase64 h]

end Shortener.DotNet
