import Atlas.Program
import Atlas.Text

/-!
# Reading bytes in order

A reader takes bytes from the front of what is left of a file and may fail; what it has
taken stays taken when it fails. `readExact` takes a number of bytes, `skip` takes them in
portions and drops them, `readLe` takes a number in little-endian order.

Each operation has one lemma for what it does in front of what was written for it:
`readExact_append`, `skip_apply`, `readLe_toLe`. Text is read with invalid parts replaced
(`fromUtf8Lossy`), which leaves a text alone (`fromUtf8Lossy_utf8`).
-/

/-- A reader: a program on the bytes that are left, whose failures say nothing more. -/
abbrev Reader (α : Type) : Type := Program Bytes Unit α

namespace ByteReader

open Program

/-! ## Numbers -/

/-- A number in so many bytes, the lowest first, cut off where it does not fit. -/
def toLe : ℕ → ℕ → Bytes
  | 0, _ => []
  | width + 1, n => UInt8.ofNat n :: toLe width (n / 256)

/-- The number of bytes that have the lowest first, however many they are. -/
def fromLe : Bytes → ℕ
  | [] => 0
  | b :: rest => b.toNat + 256 * fromLe rest

@[simp] theorem length_toLe (width n : ℕ) : (toLe width n).length = width := by
  induction width generalizing n with
  | zero => rfl
  | succ width ih =>
    show (toLe width (n / 256)).length + 1 = width + 1
    rw [ih]

/-- **Reading a number undoes writing it**, if it fits. -/
theorem fromLe_toLe {width n : ℕ} (h : n < 256 ^ width) : fromLe (toLe width n) = n := by
  induction width generalizing n with
  | zero => exact (Nat.lt_one_iff.mp h).symm
  | succ width ih =>
    have hdiv : n / 256 < 256 ^ width := by
      rw [Nat.div_lt_iff_lt_mul (by decide)]
      rwa [Nat.pow_succ] at h
    show (UInt8.ofNat n).toNat + 256 * fromLe (toLe width (n / 256)) = n
    rw [ih hdiv, UInt8.toNat_ofNat']
    exact Nat.mod_add_div n 256

/-! ## Taking bytes -/

/-- Take so many bytes; what is left is taken if there are fewer. -/
def readExact (n : ℕ) : Reader Bytes := fun s =>
  if n ≤ s.length then (.ok (s.take n), s.drop n) else (.err (), [])

/-- Take a number of so many bytes, stored with the lowest byte first as GGUF does. -/
def readLe (width : ℕ) : Reader ℕ := do
  let bytes ← readExact width
  pure (fromLe bytes)

/-- Read a number of four bytes, the lowest first, as lengths and types are stored. -/
def readU32 : Reader ℕ := readLe 4

/-- Read a number of eight bytes, the lowest first, as counts and lengths are stored. -/
def readU64 : Reader ℕ := readLe 8

/-- Take so many bytes, in portions of 8192, and drop them, so that a length the header
invents costs no memory. -/
def skip (n : ℕ) : Reader Unit :=
  if n = 0 then pure ()
  else do
    let _ ← readExact (min n 8192)
    skip (n - min n 8192)
termination_by n
decreasing_by
  rename_i h
  exact Nat.sub_lt (Nat.pos_of_ne_zero h) (lt_min (Nat.pos_of_ne_zero h) (by decide))

theorem readExact_apply {n : ℕ} {s : Bytes} (h : n ≤ s.length) :
    readExact n s = (.ok (s.take n), s.drop n) := if_pos h

theorem readExact_append {xs : Bytes} {n : ℕ} (h : xs.length = n) (rest : Bytes) :
    readExact n (xs ++ rest) = (.ok xs, rest) := by
  subst h
  rw [readExact_apply (by rw [List.length_append]; exact Nat.le_add_right _ _),
    List.take_left, List.drop_left]

/-- **A number that was written is read.** -/
theorem readLe_toLe {width n : ℕ} (h : n < 256 ^ width) (rest : Bytes) :
    readLe width (toLe width n ++ rest) = (.ok n, rest) := by
  unfold readLe
  rw [bind_of_ok (readExact_append (length_toLe width n) rest), fromLe_toLe h]
  rfl

theorem readU32_toLe {n : ℕ} (h : n < 256 ^ 4) (rest : Bytes) :
    readU32 (toLe 4 n ++ rest) = (.ok n, rest) := readLe_toLe h rest

theorem readU64_toLe {n : ℕ} (h : n < 256 ^ 8) (rest : Bytes) :
    readU64 (toLe 8 n ++ rest) = (.ok n, rest) := readLe_toLe h rest

/-- **What is there can be skipped.** -/
theorem skip_apply {n : ℕ} {s : Bytes} (h : n ≤ s.length) : skip n s = (.ok (), s.drop n) := by
  induction n using Nat.strong_induction_on generalizing s with
  | _ n ih =>
    rw [skip]
    by_cases hn : n = 0
    · rw [if_pos hn, hn]
      rfl
    · have hle : min n 8192 ≤ n := Nat.min_le_left n 8192
      have hlt : n - min n 8192 < n := Nat.sub_lt (Nat.pos_of_ne_zero hn)
        (lt_min (Nat.pos_of_ne_zero hn) (by decide))
      rw [if_neg hn, bind_of_ok (readExact_apply (hle.trans h))]
      rw [ih _ hlt (by rw [List.length_drop]; exact Nat.sub_le_sub_right h _), List.drop_drop,
        Nat.add_sub_cancel' hle]

theorem skip_append {xs : Bytes} {n : ℕ} (h : xs.length = n) (rest : Bytes) :
    skip n (xs ++ rest) = (.ok (), rest) := by
  subst h
  rw [skip_apply (by rw [List.length_append]; exact Nat.le_add_right _ _), List.drop_left]

/-! ## Text -/

/-- How many bytes at the start of bytes that begin with no character are replaced as one:
the longest part of a character they begin with, and at least one. -/
def invalidLen : Bytes → ℕ
  | [] => 0
  | b :: rest =>
    let second := rest.headD 0
    let third := (rest.drop 1).headD 0
    let continues := fun c : UInt8 => decide (0x80 ≤ c ∧ c ≤ 0xBF)
    if b = 0xE0 then if 0xA0 ≤ second ∧ second ≤ 0xBF then 2 else 1
    else if b = 0xED then if 0x80 ≤ second ∧ second ≤ 0x9F then 2 else 1
    else if 0xE1 ≤ b ∧ b ≤ 0xEF then if continues second then 2 else 1
    else if b = 0xF0 then
      if 0x90 ≤ second ∧ second ≤ 0xBF then if continues third then 3 else 2 else 1
    else if b = 0xF4 then
      if 0x80 ≤ second ∧ second ≤ 0x8F then if continues third then 3 else 2 else 1
    else if 0xF1 ≤ b ∧ b ≤ 0xF3 then
      if continues second then if continues third then 3 else 2 else 1
    else 1

/-- The text of so many bytes at most, with U+FFFD for each invalid part. -/
def lossyFrom : ℕ → Bytes → Text
  | 0, _ => []
  | _ + 1, [] => []
  | n + 1, b :: rest =>
    match (b :: rest).toByteArray.utf8DecodeChar? 0 with
    | some c => c :: lossyFrom n ((b :: rest).drop c.utf8Size)
    | none => Char.ofNat 0xFFFD :: lossyFrom n ((b :: rest).drop (invalidLen (b :: rest)))

/-- The text of bytes, with U+FFFD for each invalid part, as the source reads strings that
may not be valid. -/
def fromUtf8Lossy (bytes : Bytes) : Text := lossyFrom bytes.length bytes

theorem lossyFrom_utf8 (t : Text) {n : ℕ} (h : (Text.utf8 t).length ≤ n) :
    lossyFrom n (Text.utf8 t) = t := by
  induction t generalizing n with
  | nil =>
    cases n with
    | zero => rfl
    | succ n => rfl
  | cons c t ih =>
    have hcons : Text.utf8 (c :: t) = String.utf8EncodeChar c ++ Text.utf8 t := rfl
    have hlen : (String.utf8EncodeChar c).length = c.utf8Size := String.length_utf8EncodeChar c
    rw [hcons, List.length_append, hlen] at h
    have hdecode : (Text.utf8 (c :: t)).toByteArray.utf8DecodeChar? 0 = some c := by
      rw [hcons, List.toByteArray_append]
      exact ByteArray.utf8DecodeChar?_utf8EncodeChar_append
    have hdrop : (Text.utf8 (c :: t)).drop c.utf8Size = Text.utf8 t := by
      rw [hcons, ← hlen, List.drop_left]
    obtain ⟨b, rest, hbytes⟩ : ∃ b rest, Text.utf8 (c :: t) = b :: rest :=
      List.exists_cons_of_ne_nil fun hnil =>
        String.utf8EncodeChar_ne_nil (List.append_eq_nil_iff.mp (hcons ▸ hnil)).1
    cases n with
    | zero => exact absurd h (Nat.not_le.mpr (Nat.add_pos_left c.utf8Size_pos _))
    | succ n =>
      rw [hbytes] at hdecode hdrop ⊢
      rw [lossyFrom, hdecode]
      show c :: lossyFrom n ((b :: rest).drop c.utf8Size) = c :: t
      rw [hdrop, ih]
      have hpos := c.utf8Size_pos
      omega

/-- **A text is read from its bytes.** -/
@[simp] theorem fromUtf8Lossy_utf8 (t : Text) : fromUtf8Lossy (Text.utf8 t) = t :=
  lossyFrom_utf8 t le_rfl

end ByteReader
