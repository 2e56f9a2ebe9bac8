import Atlas.TextCut

/-!
# Base64 for URLs

The base64 encoding with the alphabet that is safe in a URL, without padding. Three
bytes are four digits; one or two bytes at the end are two or three digits, whose unused
bits are zero. Nothing else is decoded.

Decoding undoes encoding (`Base64Url.decode_encode`), and an encoding has no whitespace.
-/

open Text

namespace Base64Url

/-- The digit of a number below 64 in the URL-safe alphabet, where `-` and `_` stand for 62
and 63. -/
def digit (n : ℕ) : Char :=
  if n < 26 then Char.ofNat ('A'.toNat + n)
  else if n < 52 then Char.ofNat ('a'.toNat + (n - 26))
  else if n < 62 then Char.ofNat ('0'.toNat + (n - 52))
  else if n = 62 then '-'
  else '_'

/-- The value of a digit, or nothing where the character is not in the URL-safe alphabet. -/
def value (c : Char) : Option ℕ :=
  if 'A' ≤ c ∧ c ≤ 'Z' then some (c.toNat - 'A'.toNat)
  else if 'a' ≤ c ∧ c ≤ 'z' then some (c.toNat - 'a'.toNat + 26)
  else if '0' ≤ c ∧ c ≤ '9' then some (c.toNat - '0'.toNat + 52)
  else if c = '-' then some 62
  else if c = '_' then some 63
  else none

/-- Four digits for three bytes, and two or three for what is left. -/
def encode : Bytes → Text
  | a :: b :: c :: rest =>
    digit (a.toNat / 4) :: digit (a.toNat % 4 * 16 + b.toNat / 16) ::
      digit (b.toNat % 16 * 4 + c.toNat / 64) :: digit (c.toNat % 64) :: encode rest
  | [a, b] =>
    [digit (a.toNat / 4), digit (a.toNat % 4 * 16 + b.toNat / 16), digit (b.toNat % 16 * 4)]
  | [a] => [digit (a.toNat / 4), digit (a.toNat % 4 * 16)]
  | [] => []

/-- The bytes of an encoding without padding: four digits make three bytes, and a rest of
two or three digits one or two. -/
def decode : Text → Option Bytes
  | c₁ :: c₂ :: c₃ :: c₄ :: rest => do
    let w ← value c₁
    let x ← value c₂
    let y ← value c₃
    let z ← value c₄
    let bytes ← decode rest
    pure (UInt8.ofNat (w * 4 + x / 16) :: UInt8.ofNat (x % 16 * 16 + y / 4) ::
      UInt8.ofNat (y % 4 * 64 + z) :: bytes)
  | [c₁, c₂, c₃] => do
    let w ← value c₁
    let x ← value c₂
    let y ← value c₃
    if y % 4 = 0 then pure [UInt8.ofNat (w * 4 + x / 16), UInt8.ofNat (x % 16 * 16 + y / 4)]
    else none
  | [c₁, c₂] => do
    let w ← value c₁
    let x ← value c₂
    if x % 16 = 0 then pure [UInt8.ofNat (w * 4 + x / 16)] else none
  | [_] => none
  | [] => some []

/-! ## Digits -/

theorem value_digit : ∀ n < 64, value (digit n) = some n := by
  decide

theorem isWhitespace_digit : ∀ n < 64, isWhitespace (digit n) = false := by
  decide

section Sextets

variable (a b : UInt8)

theorem high_lt : a.toNat / 4 < 64 := by
  have := a.toNat_lt
  omega

theorem low_lt : a.toNat % 64 < 64 := Nat.mod_lt _ (by decide)

theorem first_lt : a.toNat % 4 * 16 + b.toNat / 16 < 64 := by
  have := b.toNat_lt
  omega

theorem second_lt : a.toNat % 16 * 4 + b.toNat / 64 < 64 := by
  have := b.toNat_lt
  omega

theorem first_end_lt : a.toNat % 4 * 16 < 64 := by
  omega

theorem second_end_lt : a.toNat % 16 * 4 < 64 := by
  omega

end Sextets

/-! ## Decoding undoes encoding -/

/-- A byte is put together from its parts. -/
theorem ofNat_eq {n : ℕ} {a : UInt8} (h : n = a.toNat) : UInt8.ofNat n = a := by
  rw [h, UInt8.ofNat_toNat]

/-- **Decoding undoes encoding.** -/
theorem decode_encode (bytes : Bytes) : decode (encode bytes) = some bytes := by
  induction bytes using encode.induct with
  | case1 a b c rest ih =>
    have hb := b.toNat_lt
    have hc := c.toNat_lt
    rw [encode, decode, value_digit _ (high_lt a), value_digit _ (first_lt a b),
      value_digit _ (second_lt b c), value_digit _ (low_lt c), ih]
    show some _ = some _
    rw [ofNat_eq (a := a) (by omega), ofNat_eq (a := b) (by omega),
      ofNat_eq (a := c) (by omega)]
  | case2 a b =>
    have hb := b.toNat_lt
    rw [encode, decode, value_digit _ (high_lt a), value_digit _ (first_lt a b),
      value_digit _ (second_end_lt b)]
    show (if b.toNat % 16 * 4 % 4 = 0 then _ else none) = _
    rw [if_pos (Nat.mul_mod_left _ _)]
    show some _ = some _
    rw [ofNat_eq (a := a) (by omega), ofNat_eq (a := b) (by omega)]
  | case3 a =>
    rw [encode, decode, value_digit _ (high_lt a), value_digit _ (first_end_lt a)]
    show (if a.toNat % 4 * 16 % 16 = 0 then _ else none) = _
    rw [if_pos (Nat.mul_mod_left _ _)]
    show some _ = some _
    rw [ofNat_eq (a := a) (by omega)]
  | case4 => rfl

/-- **An encoding has no whitespace.** -/
theorem isWhitespace_encode (bytes : Bytes) : ∀ c ∈ encode bytes, isWhitespace c = false := by
  induction bytes using encode.induct with
  | case1 a b c rest ih =>
    rw [encode]
    simp only [List.forall_mem_cons]
    exact ⟨isWhitespace_digit _ (high_lt a), isWhitespace_digit _ (first_lt a b),
      isWhitespace_digit _ (second_lt b c), isWhitespace_digit _ (low_lt c), ih⟩
  | case2 a b =>
    rw [encode]
    simp only [List.forall_mem_cons]
    exact ⟨isWhitespace_digit _ (high_lt a), isWhitespace_digit _ (first_lt a b),
      isWhitespace_digit _ (second_end_lt b), nofun⟩
  | case3 a =>
    rw [encode]
    simp only [List.forall_mem_cons]
    exact ⟨isWhitespace_digit _ (high_lt a), isWhitespace_digit _ (first_end_lt a), nofun⟩
  | case4 => nofun

end Base64Url
