import Atlas.NodeId

/-!
# Base32 is canonical

Records on the tracker are told apart by their keys, which `base32Decode` reads from node
ids. It is the inverse of the unpadded encoding in both directions: every spelling of an
encoding, in either case, is decoded, and what is decoded without padding is such a
spelling (`base32_canonical`). The lengths that no encoding has leave five bits or more,
and the others fewer than five, which have to be zero.

The decoder keeps its digits in a 32-bit buffer that is never emptied.
`base32DecodeWide` is the same with a number that cannot overflow; the two agree, since
never more than twelve bits of the buffer are asked for.
-/

namespace Atlas

open Text

/-! ## An accumulator without bounds -/

/-- The loop with a number in place of the buffer, so that nothing is lost at its upper end. -/
def base32LoopWide : Bytes → Bytes → ℕ → ℕ → Option (Bytes × ℕ × ℕ)
  | [], out, buffer, bits => some (out, buffer, bits)
  | c :: rest, out, buffer, bits =>
    if c = 0x3D then some (out, buffer, bits)
    else match base32Value c with
      | none => none
      | some v =>
        let buffer := buffer * 32 + v.toNat
        if 8 ≤ bits + 5 then
          base32LoopWide rest (out ++ [UInt8.ofNat (buffer / 2 ^ (bits + 5 - 8))]) buffer
            (bits + 5 - 8)
        else base32LoopWide rest out buffer (bits + 5)

/-- Decode with a number in place of the buffer, to compare the 32-bit one with. -/
def base32DecodeWide (input : Text) : Option Bytes :=
  match base32LoopWide input.utf8 [] 0 0 with
  | none => none
  | some (out, buffer, bits) => if 5 ≤ bits ∨ buffer % 2 ^ bits ≠ 0 then none else some out

/-- A digit is below 32. -/
theorem base32Value_lt {c : UInt8} {v : UInt32} (h : base32Value c = some v) :
    ∃ d < 32, v = UInt32.ofNat d := by
  have hall : ∀ c, (base32Value c).all (fun v => v.toNat < 32) = true :=
    forall_byte (by decide +kernel)
  have hlt := hall c
  rw [h, Option.all_some, decide_eq_true_iff] at hlt
  exact ⟨v.toNat, hlt, (UInt32.ofNat_toNat).symm⟩

/-- **The buffer is the number as far as it fits**, and the loops agree. -/
theorem base32Loop_wide (bytes out : Bytes) {buffer : UInt32} {n bits : ℕ}
    (hbuffer : buffer.toNat = n % 2 ^ 32) (hbits : bits < 8) :
    (base32Loop bytes out buffer bits = none ∧ base32LoopWide bytes out n bits = none) ∨
      ∃ out' buffer' n' bits', base32Loop bytes out buffer bits = some (out', buffer', bits') ∧
        base32LoopWide bytes out n bits = some (out', n', bits') ∧
        buffer'.toNat = n' % 2 ^ 32 ∧ bits' < 8 := by
  induction bytes generalizing out buffer n bits with
  | nil => exact Or.inr ⟨out, buffer, n, bits, rfl, rfl, hbuffer, hbits⟩
  | cons c rest ih =>
    rw [base32Loop, base32LoopWide]
    by_cases hpad : c = 0x3D
    · rw [if_pos hpad, if_pos hpad]
      exact Or.inr ⟨out, buffer, n, bits, rfl, rfl, hbuffer, hbits⟩
    · rw [if_neg hpad, if_neg hpad]
      cases hvalue : base32Value c with
      | none => exact Or.inl ⟨rfl, rfl⟩
      | some v =>
        obtain ⟨d, hd, rfl⟩ := base32Value_lt hvalue
        have hnat : (UInt32.ofNat d).toNat = d := UInt32.toNat_ofNat_of_lt' (hd.trans (by decide))
        have hpush := toNat_push buffer hbuffer hd
        dsimp only
        rw [hnat]
        by_cases hbyte : 8 ≤ bits + 5
        · rw [if_pos hbyte, if_pos hbyte]
          have hrest : bits + 5 - 8 < 8 := by omega
          have hpushed := toNat_pushed buffer hbuffer hd hrest
          have hsame : ((buffer <<< 5 ||| UInt32.ofNat d) >>>
              UInt32.ofNat (bits + 5 - 8)).toUInt8 =
                UInt8.ofNat ((n * 32 + d) / 2 ^ (bits + 5 - 8)) := by
            rw [← UInt8.toNat_inj, hpushed]
            rfl
          rw [hsame]
          exact ih _ hpush (by omega)
        · rw [if_neg hbyte, if_neg hbyte]
          exact ih _ hpush (by omega)

/-- **No bit is lost that is still needed.** -/
theorem base32Decode_eq_wide (input : Text) : base32Decode input = base32DecodeWide input := by
  unfold base32Decode base32DecodeWide
  obtain ⟨hloop, hwide⟩ | ⟨out, buffer, n, bits, hloop, hwide, hbuffer, hbits⟩ :=
    base32Loop_wide input.utf8 [] (show (0 : UInt32).toNat = 0 % 2 ^ 32 from rfl)
      (show 0 < 8 by decide)
  · rw [hloop, hwide]
  · rw [hloop, hwide]
    dsimp only
    have htail : (buffer &&& (1 <<< UInt32.ofNat bits - 1) ≠ 0) ↔ n % 2 ^ bits ≠ 0 := by
      rw [Ne, tail_eq_zero_iff buffer hbits, hbuffer,
        Nat.mod_mod_of_dvd _ (Nat.pow_dvd_pow 2 (by omega))]
    simp only [htail]

/-! ## What is decoded -/

/-- A byte that is no ASCII character is no digit and no padding. -/
theorem base32Value_of_large {b : UInt8} (h : 128 ≤ b.toNat) :
    b ≠ 0x3D ∧ base32Value b = none := by
  have hall : ∀ b : UInt8, 128 ≤ b.toNat → b ≠ 0x3D ∧ base32Value b = none :=
    forall_byte (by decide +kernel)
  exact hall b h

/-- The first byte of a character is the padding only if the character is. -/
theorem ne_padding {c : Char} (hpad : c ≠ '=') {b : UInt8} {rest : Bytes}
    (hc : String.utf8EncodeChar c = b :: rest) : b ≠ 0x3D := by
  by_cases hlarge : 128 ≤ c.toNat
  · have hb := utf8EncodeChar_large hlarge b (hc ▸ List.mem_cons_self)
    exact (base32Value_of_large hb).1
  · have hlt : c.toNat < 128 := Nat.lt_of_not_le hlarge
    rw [(List.cons.inj (hc.symm.trans (utf8EncodeChar_ascii c hlt))).1]
    have hall : ∀ c : Char, c.toNat < 128 → c ≠ '=' → UInt8.ofNat c.toNat ≠ 0x3D :=
      forall_char_lt (by decide +kernel)
    exact hall c hlt hpad

/-- A character whose first byte is a digit is one, in either case. -/
theorem toLower_of_base32Value {c : Char} {b : UInt8} {rest : Bytes}
    (hc : String.utf8EncodeChar c = b :: rest) {v : UInt32} (hv : base32Value b = some v) :
    rest = [] ∧ ∃ d < 32, c.toLower = base32Digit d := by
  by_cases hlarge : 128 ≤ c.toNat
  · have hb := utf8EncodeChar_large hlarge b (hc ▸ List.mem_cons_self)
    rw [(base32Value_of_large hb).2] at hv
    cases hv
  · have hlt : c.toNat < 128 := Nat.lt_of_not_le hlarge
    obtain ⟨rfl, rfl⟩ := List.cons.inj (hc.symm.trans (utf8EncodeChar_ascii c hlt))
    have hall : ∀ c : Char, c.toNat < 128 → (base32Value (UInt8.ofNat c.toNat)).isSome = true →
        ∃ d < 32, c.toLower = base32Digit d :=
      forall_char_lt (by decide +kernel)
    exact ⟨rfl, hall c hlt (Option.isSome_iff_exists.mpr ⟨v, hv⟩)⟩

/-- **A text whose bytes are all read** is one of digits, in either case. -/
theorem digits_of_base32Loop {s : Text} (hpad : '=' ∉ s) {out : Bytes} {buffer : UInt32}
    {bits : ℕ} {r : Bytes × UInt32 × ℕ} (h : base32Loop (utf8 s) out buffer bits = some r) :
    ∃ digits : List ℕ, (∀ d ∈ digits, d < 32) ∧ toAsciiLowercase s = digits.map base32Digit := by
  induction s generalizing out buffer bits with
  | nil => exact ⟨[], List.forall_mem_nil _, rfl⟩
  | cons c s ih =>
    obtain ⟨hc, hs⟩ := not_or.mp (List.mem_cons.not.mp hpad)
    obtain ⟨b, tail, hbytes⟩ := List.exists_cons_of_ne_nil (String.utf8EncodeChar_ne_nil (c := c))
    have hcons : utf8 (c :: s) = b :: (tail ++ utf8 s) := by
      rw [utf8, List.flatMap_cons, hbytes]
      rfl
    rw [hcons, base32Loop, if_neg (ne_padding (Ne.symm hc) hbytes)] at h
    cases hvalue : base32Value b with
    | none =>
      rw [hvalue] at h
      cases h
    | some v =>
      obtain ⟨rfl, d, hd, hdigit⟩ := toLower_of_base32Value hbytes hvalue
      rw [hvalue] at h
      dsimp only at h
      have hrest : ∃ digits : List ℕ, (∀ d ∈ digits, d < 32) ∧
          toAsciiLowercase s = digits.map base32Digit := by
        split at h
        · exact ih hs h
        · exact ih hs h
      obtain ⟨digits, hdigits, hlower⟩ := hrest
      refine ⟨d :: digits, List.forall_mem_cons.mpr ⟨hd, hdigits⟩, ?_⟩
      rw [List.map_cons, ← hdigit, ← hlower]
      rfl

/-- **What decoding digits comes to**: the number of the digits without its last bits, if
these are fewer than five and all zero. -/
theorem base32Decode_of_digits {digits : List ℕ} (hdigits : ∀ d ∈ digits, d < 32) {s : Text}
    (hs : s.toAsciiLowercase = digits.map base32Digit) :
    ∃ out bits, 8 * out.length + bits = 5 * digits.length ∧ bits < 8 ∧
      bigEndian out = Nat.ofDigits 32 digits.reverse / 2 ^ bits ∧
      base32Decode s = if 5 ≤ bits ∨ Nat.ofDigits 32 digits.reverse % 2 ^ bits ≠ 0 then none
        else some out := by
  obtain ⟨out, buffer, bits, hloop, hout, hbuffer, hbits, hlength⟩ :=
    @base32Loop_digits _ hdigits s hs [] 0 0 0 rfl rfl (by decide)
  rw [Nat.zero_mul, Nat.zero_add] at hout hbuffer
  refine ⟨out, bits, by simpa using hlength, hbits, hout, ?_⟩
  unfold base32Decode
  rw [hloop]
  dsimp only
  have htail : (buffer &&& (1 <<< UInt32.ofNat bits - 1) ≠ 0) ↔
      Nat.ofDigits 32 digits.reverse % 2 ^ bits ≠ 0 := by
    rw [Ne, tail_eq_zero_iff buffer hbits, hbuffer,
      Nat.mod_mod_of_dvd _ (Nat.pow_dvd_pow 2 (by omega))]
  simp only [htail]

/-- **What is decoded is an encoding**, up to case. -/
theorem encode_of_decode {s : Text} (hpad : '=' ∉ s) {v : Bytes} (h : base32Decode s = some v) :
    s.toAsciiLowercase = base32Encode v := by
  obtain ⟨digits, hdigits, hs⟩ : ∃ digits : List ℕ, (∀ d ∈ digits, d < 32) ∧
      s.toAsciiLowercase = digits.map base32Digit := by
    unfold base32Decode at h
    cases hloop : base32Loop s.utf8 [] 0 0 with
    | none =>
      rw [hloop] at h
      cases h
    | some r => exact digits_of_base32Loop hpad hloop
  obtain ⟨out, bits, hlength, -, hout, hdecode⟩ := base32Decode_of_digits hdigits hs
  rw [hdecode] at h
  split at h
  · cases h
  · rename_i hnot
    obtain ⟨hbits, hzero⟩ := not_or.mp hnot
    rw [not_not] at hzero
    cases h
    have hcount : (8 * v.length + 4) / 5 = digits.length := by omega
    have hpadding : 5 * digits.length - 8 * v.length = bits := by omega
    have hnumber : bigEndian v * 2 ^ bits = Nat.ofDigits 32 digits.reverse := by
      rw [hout]
      exact Nat.div_mul_cancel (Nat.dvd_of_mod_eq_zero hzero)
    have hback : Nat.digitsAppend 32 digits.length (Nat.ofDigits 32 digits.reverse) =
        digits.reverse :=
      (Nat.setInvOn_digitsAppend_ofDigits (by decide) digits.length).1
        ⟨List.length_reverse, fun d hd => hdigits d (List.mem_reverse.mp hd)⟩
    unfold base32Encode
    dsimp only
    rw [hcount, hpadding, hnumber, hback, List.reverse_reverse, hs]

/-- **Base32 is a canonical codec.** Every spelling of an encoding is decoded to what it
encodes; what is decoded, without padding, is a spelling of the encoding, so that two such
texts that are decoded alike are the same up to case; a text of a length that no encoding
has is rejected, and one whose last bits are not all zero; and the 32-bit buffer decodes
every text as a buffer without bounds does. -/
theorem base32_canonical :
    (∀ (v : Bytes) (s : Text), s.toAsciiLowercase = base32Encode v → base32Decode s = some v) ∧
    (∀ (s : Text) (v : Bytes), '=' ∉ s → base32Decode s = some v →
      s.toAsciiLowercase = base32Encode v) ∧
    (∀ (s t : Text) (v : Bytes), '=' ∉ s → '=' ∉ t → base32Decode s = some v →
      base32Decode t = some v → eqIgnoreAsciiCase s t = true) ∧
    (∀ s : Text, '=' ∉ s → s.length % 8 ∈ [1, 3, 6] → base32Decode s = none) ∧
    (∀ digits : List ℕ, (∀ d ∈ digits, d < 32) →
      Nat.ofDigits 32 digits.reverse % 2 ^ (5 * digits.length % 8) ≠ 0 →
        base32Decode (digits.map base32Digit) = none) ∧
    ∀ s : Text, base32Decode s = base32DecodeWide s := by
  refine ⟨fun v s => base32Decode_of_toLower, fun s v hpad h => encode_of_decode hpad h, ?_, ?_,
    ?_, base32Decode_eq_wide⟩
  · intro s t v hs ht hdecode hdecode'
    rw [eqIgnoreAsciiCase_iff, encode_of_decode hs hdecode, encode_of_decode ht hdecode']
  · intro s hpad hlength
    cases hdecode : base32Decode s with
    | none => rfl
    | some v =>
      -- an encoding has another length
      have hsame := congrArg List.length (encode_of_decode hpad hdecode)
      rw [length_base32Encode, toAsciiLowercase, List.length_map] at hsame
      simp only [List.mem_cons, List.not_mem_nil, or_false] at hlength
      omega
  · intro digits hdigits hne
    have hlower : toAsciiLowercase (digits.map base32Digit) = digits.map base32Digit := by
      have hdigit : ∀ d < 32, (base32Digit d).toLower = base32Digit d := by decide
      unfold toAsciiLowercase
      rw [List.map_map]
      exact List.map_congr_left fun d hd => hdigit d (hdigits d hd)
    obtain ⟨out, bits, hlength, hbits, -, hdecode⟩ := base32Decode_of_digits hdigits hlower
    rw [hdecode, if_pos (Or.inr ?_)]
    rwa [show bits = 5 * digits.length % 8 by omega]

/-- The encoding of six letters, in either case, and a spelling with a bit that is not zero. -/
example : base32Decode "mzxw6ytboi".toList = some [102, 111, 111, 98, 97, 114] ∧
    base32Decode "MZXW6YQ".toList = some [102, 111, 111, 98] ∧
    base32Decode "mzxw6yr".toList = none := by
  decide +kernel

end Atlas
