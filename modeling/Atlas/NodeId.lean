import Mathlib.Data.Nat.Digits.Lemmas
import Atlas.AnnounceAuth
import Atlas.TextCut

/-!
# Node ids

A node id is an Ed25519 public key as the node library prints it: 64 hexadecimal
digits, or base32 in lower case and without padding. The registry decodes it without
that library, five bits a digit into a 32-bit buffer that is never emptied.

Both spellings decode to the key (`decodeNodeId_of_prints`). What the decoder keeps is
said in terms of the number the digits read so far are: the bytes written are that
number without its last bits, and the buffer is the number modulo `2 ^ 32`.
-/

namespace Atlas

open Text

/-! ## Base32 -/

/-- The number that some bytes are, the first of them the most significant. -/
def bigEndian (bytes : Bytes) : ℕ := Nat.ofDigits 256 (bytes.reverse.map UInt8.toNat)

/-- The lower-case base32 digit of a number below 32, which is the digit of the alphabet
without its padding. -/
def base32Digit (n : ℕ) : Char := "abcdefghijklmnopqrstuvwxyz234567".toList.getD n 'a'

/-- Base32 in lower case, without padding: the digits of the bits, which are filled up
with zeros to a multiple of five. -/
def base32Encode (bytes : Bytes) : Text :=
  let count := (8 * bytes.length + 4) / 5
  (Nat.digitsAppend 32 count (bigEndian bytes * 2 ^ (5 * count - 8 * bytes.length))).reverse.map
    base32Digit

theorem bigEndian_append (bytes : Bytes) (b : UInt8) :
    bigEndian (bytes ++ [b]) = b.toNat + 256 * bigEndian bytes := by
  unfold bigEndian
  rw [List.reverse_append, List.reverse_singleton, List.singleton_append, List.map_cons,
    Nat.ofDigits_cons]

theorem bigEndian_lt (bytes : Bytes) : bigEndian bytes < 256 ^ bytes.length := by
  have hlt := Nat.ofDigits_lt_base_pow_length (b := 256) (l := bytes.reverse.map UInt8.toNat)
    (by decide) fun x hx => by
      obtain ⟨b, -, rfl⟩ := List.mem_map.mp hx
      exact b.toNat_lt
  rwa [List.length_map, List.length_reverse] at hlt

/-- As many bytes that are the same number are the same bytes. -/
theorem bigEndian_inj {bytes bytes' : Bytes} (hlength : bytes.length = bytes'.length)
    (h : bigEndian bytes = bigEndian bytes') : bytes = bytes' := by
  have hlt : ∀ (bs : Bytes), ∀ x ∈ bs.reverse.map UInt8.toNat, x < 256 := by
    intro bs x hx
    obtain ⟨b, -, rfl⟩ := List.mem_map.mp hx
    exact b.toNat_lt
  have hdigits := Nat.ofDigits_inj_of_len_eq (by decide)
    (by rw [List.length_map, List.length_map, List.length_reverse, List.length_reverse, hlength])
    (hlt bytes) (hlt bytes') h
  have htoNat : Function.Injective UInt8.toNat := fun _ _ => UInt8.toNat_inj.mp
  exact List.reverse_injective (List.map_injective_iff.mpr htoNat hdigits)

/-- The bits, filled up, are a number of as many base32 digits. -/
theorem filled_lt (bytes : Bytes) :
    bigEndian bytes * 2 ^ (5 * ((8 * bytes.length + 4) / 5) - 8 * bytes.length) <
      32 ^ ((8 * bytes.length + 4) / 5) := by
  calc bigEndian bytes * 2 ^ (5 * ((8 * bytes.length + 4) / 5) - 8 * bytes.length)
      < 256 ^ bytes.length * 2 ^ (5 * ((8 * bytes.length + 4) / 5) - 8 * bytes.length) :=
        Nat.mul_lt_mul_of_pos_right (bigEndian_lt bytes) (Nat.two_pow_pos _)
    _ = 2 ^ (5 * ((8 * bytes.length + 4) / 5)) := by
        rw [show 256 = 2 ^ 8 from rfl, ← Nat.pow_mul, ← Nat.pow_add]
        congr 1
        omega
    _ = 32 ^ ((8 * bytes.length + 4) / 5) := by
        rw [Nat.pow_mul]

/-- A digit, in either case, is one byte, which is read as its value. -/
theorem base32Value_of_toLower {c : Char} {d : ℕ} (hd : d < 32) (h : c.toLower = base32Digit d) :
    ∃ b : UInt8, String.utf8EncodeChar c = [b] ∧ b ≠ 0x3D ∧
      base32Value b = some (UInt32.ofNat d) := by
  have hdigit : ∀ d < 32, (base32Digit d).toNat < 128 := by decide
  have hascii : c.toNat < 128 := toNat_lt_of_toLower (h ▸ hdigit d hd)
  have hvalue : ∀ c : Char, c.toNat < 128 → ∀ d < 32, c.toLower = base32Digit d →
      UInt8.ofNat c.toNat ≠ 0x3D ∧
        base32Value (UInt8.ofNat c.toNat) = some (UInt32.ofNat d) :=
    forall_char_lt (by decide +kernel)
  exact ⟨_, utf8EncodeChar_ascii c hascii, hvalue c hascii d hd h⟩

/-- One more digit in the buffer. -/
theorem toNat_push (buffer : UInt32) {n d : ℕ} (hbuffer : buffer.toNat = n % 2 ^ 32)
    (hd : d < 32) :
    (buffer <<< 5 ||| UInt32.ofNat d).toNat = (n * 32 + d) % 2 ^ 32 := by
  have hshift : (buffer <<< 5).toNat = (n % 2 ^ 27) <<< 5 := by
    rw [UInt32.toNat_shiftLeft, hbuffer, Nat.shiftLeft_eq, Nat.shiftLeft_eq]
    show n % 2 ^ 32 * 2 ^ 5 % 2 ^ 32 = _
    omega
  rw [UInt32.toNat_or, hshift, UInt32.toNat_ofNat_of_lt' (by omega : d < 2 ^ 32),
    ← Nat.shiftLeft_add_eq_or_of_lt (show d < 2 ^ 5 from hd), Nat.shiftLeft_eq]
  omega

/-- A byte near the end of a number is in its last 32 bits. -/
theorem byte_of_mod (n : ℕ) {rest : ℕ} (h : rest ≤ 24) :
    n % 2 ^ 32 / 2 ^ rest % 256 = n / 2 ^ rest % 256 := by
  have hpow : 2 ^ 32 = 2 ^ rest * 2 ^ (32 - rest) := by
    rw [← Nat.pow_add, Nat.add_sub_cancel' (h.trans (by decide))]
  rw [hpow, Nat.mod_mul_right_div_self]
  exact Nat.mod_mod_of_dvd _ (Nat.pow_dvd_pow 2 (show 8 ≤ 32 - rest by omega))

/-- The byte that is written, when there are eight bits. -/
theorem toNat_pushed (buffer : UInt32) {n d rest : ℕ} (hbuffer : buffer.toNat = n % 2 ^ 32)
    (hd : d < 32) (hrest : rest < 8) :
    ((buffer <<< 5 ||| UInt32.ofNat d) >>> UInt32.ofNat rest).toUInt8.toNat =
      (n * 32 + d) / 2 ^ rest % 256 := by
  rw [UInt32.toNat_toUInt8, UInt32.toNat_shiftRight, toNat_push buffer hbuffer hd,
    UInt32.toNat_ofNat_of_lt' (hrest.trans (by decide)),
    Nat.mod_eq_of_lt (hrest.trans (by decide)), Nat.shiftRight_eq_div_pow]
  exact byte_of_mod _ (by omega)

/-- The check of what is left. -/
theorem tail_eq_zero_iff (buffer : UInt32) {bits : ℕ} (hbits : bits < 8) :
    buffer &&& (1 <<< UInt32.ofNat bits - 1) = 0 ↔ buffer.toNat % 2 ^ bits = 0 := by
  have hmask : (1 <<< UInt32.ofNat bits - 1 : UInt32).toNat = 2 ^ bits - 1 := by
    interval_cases bits <;> rfl
  rw [← UInt32.toNat_inj, UInt32.toNat_and, hmask, Nat.and_two_pow_sub_one_eq_mod]
  rfl

/-- **What the decoder keeps.** After some digits, which are the number `n`, the bytes
written are `n` without its last `bits` bits, and the buffer is `n` as far as it fits. -/
theorem base32Loop_digits {digits : List ℕ} (hdigits : ∀ d ∈ digits, d < 32) {s : Text}
    (hs : s.toAsciiLowercase = digits.map base32Digit) {out : Bytes} {buffer : UInt32}
    {bits n : ℕ} (hout : bigEndian out = n / 2 ^ bits) (hbuffer : buffer.toNat = n % 2 ^ 32)
    (hbits : bits < 8) :
    ∃ out' buffer' bits', base32Loop (utf8 s) out buffer bits =
        some (out', buffer', bits') ∧
      bigEndian out' = (n * 32 ^ digits.length + Nat.ofDigits 32 digits.reverse) / 2 ^ bits' ∧
      buffer'.toNat =
        (n * 32 ^ digits.length + Nat.ofDigits 32 digits.reverse) % 2 ^ 32 ∧
      bits' < 8 ∧ 8 * out'.length + bits' = 8 * out.length + bits + 5 * digits.length := by
  induction digits generalizing s out buffer bits n with
  | nil =>
    rw [toAsciiLowercase_eq_nil.mp hs]
    refine ⟨out, buffer, bits, rfl, ?_, ?_, hbits, rfl⟩
    · simpa using hout
    · simpa using hbuffer
  | cons d digits ih =>
    have hd := hdigits d List.mem_cons_self
    have hrest := fun d' hd' => hdigits d' (List.mem_cons_of_mem d hd')
    obtain ⟨ch, s, rfl, hch, htail⟩ := List.map_eq_cons_iff.mp hs
    obtain ⟨c, hc, hpad, hvalue⟩ := base32Value_of_toLower hd hch
    have hpush := toNat_push buffer hbuffer hd
    -- the number goes on with the next digit
    have hnumber : n * 32 ^ (d :: digits).length + Nat.ofDigits 32 (d :: digits).reverse =
        (n * 32 + d) * 32 ^ digits.length + Nat.ofDigits 32 digits.reverse := by
      rw [List.reverse_cons, Nat.ofDigits_append, Nat.ofDigits_singleton, List.length_reverse,
        List.length_cons]
      ring
    have hutf8 : utf8 (ch :: s) = c :: utf8 s := by
      rw [utf8, List.flatMap_cons, hc]
      rfl
    rw [hnumber, hutf8, base32Loop, if_neg hpad, hvalue]
    dsimp only
    have hdiv : (n * 32 + d) / 2 ^ (bits + 5) = n / 2 ^ bits := by
      rw [Nat.pow_add', ← Nat.div_div_eq_div_mul]
      congr 1
      omega
    by_cases hbyte : 8 ≤ bits + 5
    · rw [if_pos hbyte]
      obtain ⟨rest, hrest'⟩ : ∃ rest, bits + 5 = rest + 8 := ⟨bits + 5 - 8, by omega⟩
      rw [hrest'] at hdiv ⊢
      rw [Nat.add_sub_cancel]
      have hsmall : rest < 8 := by omega
      have hpushed := toNat_pushed buffer hbuffer hd hsmall
      have hout' : bigEndian (out ++
          [((buffer <<< 5 ||| UInt32.ofNat d) >>> UInt32.ofNat rest).toUInt8]) =
            (n * 32 + d) / 2 ^ rest := by
        rw [bigEndian_append, hpushed, hout, ← hdiv, Nat.pow_add, ← Nat.div_div_eq_div_mul]
        exact Nat.mod_add_div _ 256
      obtain ⟨out', buffer', bits', hloop, hvalue', hbuffer', hbits', hlength⟩ :=
        ih hrest htail hout' hpush hsmall
      refine ⟨out', buffer', bits', hloop, hvalue', hbuffer', hbits', ?_⟩
      rw [List.length_append, List.length_singleton] at hlength
      rw [List.length_cons]
      omega
    · rw [if_neg hbyte]
      obtain ⟨out', buffer', bits', hloop, hvalue', hbuffer', hbits', hlength⟩ :=
        ih hrest htail (hout.trans hdiv.symm) hpush (by omega)
      refine ⟨out', buffer', bits', hloop, hvalue', hbuffer', hbits', ?_⟩
      rw [List.length_cons]
      omega

/-- **Decoding undoes encoding**, in either case. -/
theorem base32Decode_of_toLower {s : Text} {bytes : Bytes}
    (h : s.toAsciiLowercase = base32Encode bytes) : base32Decode s = some bytes := by
  unfold base32Encode at h
  dsimp only at h
  have hlt := filled_lt bytes
  generalize hcount : (8 * bytes.length + 4) / 5 = count at hlt h
  generalize hpad : 5 * count - 8 * bytes.length = pad at hlt h
  have hsmall : pad < 5 := by omega
  generalize hnumber : bigEndian bytes * 2 ^ pad = n at hlt h
  have hdigits : ∀ d ∈ (Nat.digitsAppend 32 count n).reverse, d < 32 := fun d hd =>
    Nat.lt_of_mem_digitsAppend (by decide) count d (List.mem_reverse.mp hd)
  obtain ⟨out, buffer, bits, hloop, hout, hbuffer, hbits, hlength⟩ :=
    @base32Loop_digits _ hdigits s h [] 0 0 0 rfl rfl (by decide)
  rw [List.reverse_reverse, Nat.zero_mul, Nat.zero_add, Nat.digitsAppend,
    Nat.ofDigits_append_replicate_zero, Nat.ofDigits_digits] at hout hbuffer
  rw [List.length_reverse, Nat.length_digitsAppend (by decide) count hlt, List.length_nil]
    at hlength
  obtain rfl : bits = pad := by omega
  have hbytes : out = bytes := by
    refine bigEndian_inj (by omega) (hout.trans ?_)
    rw [← hnumber, Nat.mul_div_cancel _ (Nat.two_pow_pos bits)]
  have htail : buffer &&& (1 <<< UInt32.ofNat bits - 1) = 0 := by
    rw [tail_eq_zero_iff buffer hbits, hbuffer,
      Nat.mod_mod_of_dvd _ (Nat.pow_dvd_pow 2 (by omega)), ← hnumber, Nat.mul_mod_left]
  unfold base32Decode
  rw [hloop]
  dsimp only
  rw [if_neg (not_or.mpr ⟨by omega, not_not.mpr htail⟩), hbytes]

/-- An encoding is in lower case. -/
theorem toAsciiLowercase_base32Encode (bytes : Bytes) :
    (base32Encode bytes).toAsciiLowercase = base32Encode bytes := by
  have hdigit : ∀ d < 32, (base32Digit d).toLower = base32Digit d := by decide
  unfold base32Encode toAsciiLowercase
  dsimp only
  rw [List.map_map]
  refine List.map_congr_left fun d hd => hdigit d ?_
  exact Nat.lt_of_mem_digitsAppend (by decide) _ d (List.mem_reverse.mp hd)

theorem length_base32Encode (bytes : Bytes) :
    (base32Encode bytes).length = (8 * bytes.length + 4) / 5 := by
  unfold base32Encode
  dsimp only
  rw [List.length_map, List.length_reverse]
  exact Nat.length_digitsAppend (by decide) _ (filled_lt bytes)

/-! ## Printed keys -/

/-- **A text prints a key**: in hexadecimal, in either case, or in base32. -/
def Prints (s : Text) (key : Bytes) : Prop :=
  s.toAsciiLowercase = hexEncode key ∨ s = base32Encode key

/-- The case of a hexadecimal digit does not matter. -/
theorem hexValue_of_toLower {c : Char} {n : ℕ} (hn : n < 16) (h : c.toLower = hexDigit n) :
    hexValue c = some n ∧ c.utf8Size = 1 ∧ isWhitespace c = false := by
  have hdigit : ∀ n < 16, (hexDigit n).toNat < 128 := by decide
  have hascii : c.toNat < 128 := toNat_lt_of_toLower (h ▸ hdigit n hn)
  have hall : ∀ c : Char, c.toNat < 128 → ∀ n < 16, c.toLower = hexDigit n →
      hexValue c = some n ∧ c.utf8Size = 1 ∧ isWhitespace c = false :=
    forall_char_lt (by decide +kernel)
  exact hall c hascii n hn h

/-- Hexadecimal in either case is decoded. -/
theorem hexDecode_of_toLower {s : Text} {bytes : Bytes}
    (h : s.toAsciiLowercase = hexEncode bytes) :
    hexDecode s = some bytes ∧ ∀ c ∈ s, c.utf8Size = 1 ∧ isWhitespace c = false := by
  induction bytes generalizing s with
  | nil =>
    rw [toAsciiLowercase_eq_nil.mp h]
    exact ⟨rfl, fun _ hc => nomatch hc⟩
  | cons b bytes ih =>
    match s, h with
    | [c], h =>
      have hnil := (List.cons.inj h).2
      cases hnil
    | c :: d :: s, h =>
      obtain ⟨hc, hrest⟩ := List.cons.inj h
      obtain ⟨hd, htail⟩ := List.cons.inj hrest
      obtain ⟨hhigh, hc'⟩ := hexValue_of_toLower (Nat.div_lt_of_lt_mul b.toNat_lt) hc
      obtain ⟨hlow, hd'⟩ := hexValue_of_toLower (Nat.mod_lt _ (by decide)) hd
      obtain ⟨hbytes, hall⟩ := ih htail
      constructor
      · rw [hexDecode, hhigh, hlow, hbytes]
        show some (UInt8.ofNat (b.toNat / 16 * 16 + b.toNat % 16) :: bytes) = _
        rw [Nat.div_add_mod', UInt8.ofNat_toNat]
      · intro e he
        obtain rfl | he := List.mem_cons.mp he
        · exact hc'
        · obtain rfl | he := List.mem_cons.mp he
          · exact hd'
          · exact hall e he

/-- **A printed key decodes to the key.** -/
theorem decodeNodeId_of_prints {s : Text} {key : Bytes} (hlength : key.length = 32)
    (h : Prints s key) : decodeNodeId s = some key := by
  obtain hhex | hbase := h
  · obtain ⟨hdecode, hall⟩ := hexDecode_of_toLower hhex
    have hlen : s.length = 64 := by
      have hboth := congrArg List.length hhex
      rwa [toAsciiLowercase, List.length_map, length_hexEncode, hlength] at hboth
    unfold decodeNodeId
    rw [trim_eq_self fun c hc => (hall c hc).2]
    dsimp only
    rw [utf8Len_eq_length fun c hc => (hall c hc).1, if_pos hlen, hdecode]
  · have hdigit : ∀ d < 32, (base32Digit d).utf8Size = 1 ∧
        isWhitespace (base32Digit d) = false := by
      decide
    have hall : ∀ c ∈ s, c.utf8Size = 1 ∧ isWhitespace c = false := by
      intro c hc
      rw [hbase] at hc
      obtain ⟨d, hd, rfl⟩ := List.mem_map.mp hc
      exact hdigit d (Nat.lt_of_mem_digitsAppend (by decide) _ d (List.mem_reverse.mp hd))
    have hlen : s.length = 52 := by rw [hbase, length_base32Encode, hlength]
    unfold decodeNodeId
    rw [trim_eq_self fun c hc => (hall c hc).2]
    dsimp only
    rw [utf8Len_eq_length fun c hc => (hall c hc).1, hlen, if_neg (by decide), hbase,
      base32Decode_of_toLower (toAsciiLowercase_base32Encode key), Option.bind_some,
      if_pos hlength]

end Atlas
