import Mathlib.Algebra.GroupWithZero.Nat
import Mathlib.Data.Char
import Mathlib.Data.List.DropRight
import Mathlib.Data.List.Infix
import Mathlib.Data.List.Lex

/-!
# Text, its bytes, and hexadecimal

Text is a list of characters. What is here is the part of a standard
string library that digests, names and addresses are handled with: ASCII
case folding, comparison up to ASCII case, splitting and trimming, the bytes
of a text, and the hexadecimal encoding of a byte string.

The one fact worth having about hexadecimal is that it is its own folded
form and injective: two byte strings whose encodings agree up to ASCII case
are the same byte string (`Text.hexEncode_eqIgnoreAsciiCase`). Comparing
digests as text up to case is therefore comparing them as bytes.
-/

/-- Text, as the list of its Unicode scalar values; a function that the source has on bytes
goes through its UTF-8 encoding. -/
abbrev Text := List Char

/-- Two texts are compared character by character, as the lists they are. -/
instance : LawfulBEq Text := inferInstance

/-- A byte string, as a list of its bytes. -/
abbrev Bytes := List UInt8

namespace Text

/-- The length of a text in UTF-8 bytes, which is what the source's `len` gives. -/
def utf8Len (s : Text) : ℕ := (s.map Char.utf8Size).sum

/-- ASCII case folding; characters outside `A`–`Z` are kept, accented letters among them. -/
def toAsciiLowercase (s : Text) : Text := s.map Char.toLower

/-- Lower case, a character at a time: what a character becomes may depend on the
text before it and the text after it. -/
def lowercaseAfter (lower : Text → Char → Text → Text) (before : Text) : Text → Text
  | [] => []
  | c :: rest => lower before c rest ++ lowercaseAfter lower (before ++ [c]) rest

/-- A text in lower case; `lower` is the table of the standard library. -/
def toLowercase (lower : Text → Char → Text → Text) : Text → Text := lowercaseAfter lower []

/-- Equality up to ASCII case, which is how the source compares digests and names of apps. -/
def eqIgnoreAsciiCase (s t : Text) : Bool :=
  decide (s.toAsciiLowercase = t.toAsciiLowercase)

/-- Whether a character is one of `0`–`9`, `a`–`f`, `A`–`F`; no other digit of Unicode counts. -/
def isAsciiHexdigit (c : Char) : Bool :=
  ('0' ≤ c && c ≤ '9') || ('a' ≤ c && c ≤ 'f') || ('A' ≤ c && c ≤ 'F')

/-- Whether a character is an ASCII letter or digit; letters with accents and digits of
other scripts are not. -/
def isAsciiAlphanumeric (c : Char) : Bool :=
  ('0' ≤ c && c ≤ '9') || ('a' ≤ c && c ≤ 'z') || ('A' ≤ c && c ≤ 'Z')

/-- Whether a character is an ASCII letter, in either case. -/
def isAsciiAlphabetic (c : Char) : Bool :=
  ('a' ≤ c && c ≤ 'z') || ('A' ≤ c && c ≤ 'Z')

/-- The Unicode `White_Space` property, by which the source trims and splits. -/
def isWhitespace (c : Char) : Bool :=
  let n := c.toNat
  (0x09 ≤ n && n ≤ 0x0D) || n == 0x20 || n == 0x85 || n == 0xA0 || n == 0x1680 ||
    (0x2000 ≤ n && n ≤ 0x200A) || n == 0x2028 || n == 0x2029 || n == 0x202F ||
    n == 0x205F || n == 0x3000

/-- The Unicode category of control characters, those below the blank and around `DEL`. -/
def isControl (c : Char) : Bool := c.toNat < 0x20 || (0x7F ≤ c.toNat && c.toNat ≤ 0x9F)

/-- A text without some characters at its ends, as many of them as there are. -/
def trimMatches (p : Char → Bool) (s : Text) : Text := (s.dropWhile p).rdropWhile p

/-- A text without the whitespace at its ends, as the source's `trim` gives it. -/
def trim (s : Text) : Text := s.dropWhile isWhitespace |>.rdropWhile isWhitespace

/-- What is checked character by character holds of every character. -/
theorem forall_mem_of_all {p : Char → Prop} [DecidablePred p] {s : Text}
    (h : s.all (fun c => decide (p c)) = true) : ∀ c ∈ s, p c :=
  fun c hc => of_decide_eq_true (List.all_eq_true.mp h c hc)

/-- What is checked of the characters below a bound holds of each of them. -/
theorem forall_char_lt {b : ℕ} {p : Char → Prop} (h : ∀ n < b, p (Char.ofNat n)) (c : Char)
    (hc : c.toNat < b) : p c := by
  have hp := h c.toNat hc
  rwa [Char.ofNat_toNat] at hp

/-- What is checked of every byte holds of each of them. -/
theorem forall_byte {p : UInt8 → Prop} (h : ∀ n < 256, p (UInt8.ofNat n)) (b : UInt8) : p b := by
  have hp := h b.toNat b.toNat_lt
  rwa [UInt8.ofNat_toNat] at hp

@[simp] theorem toAsciiLowercase_nil : toAsciiLowercase [] = [] := rfl

@[simp] theorem toAsciiLowercase_append (s t : Text) :
    toAsciiLowercase (s ++ t) = toAsciiLowercase s ++ toAsciiLowercase t :=
  List.map_append

/-- What a letter folds to is no upper-case letter. -/
theorem toLower_toLower (c : Char) : c.toLower.toLower = c.toLower := by
  have hnot : ¬ (c.toLower.val ≥ 'A'.val ∧ c.toLower.val ≤ 'Z'.val) := by
    by_cases h : c.val ≥ 'A'.val ∧ c.val ≤ 'Z'.val
    · have hlower : c.toLower.val = c.val + 32 := congrArg Char.val (dif_pos h)
      rw [hlower]
      have hge : 65 ≤ c.val.toNat := UInt32.le_iff_toNat_le.mp h.1
      have hle : c.val.toNat ≤ 90 := UInt32.le_iff_toNat_le.mp h.2
      rintro ⟨-, hup⟩
      have hup : (c.val + 32).toNat ≤ 90 := UInt32.le_iff_toNat_le.mp hup
      rw [UInt32.toNat_add] at hup
      have : (32 : UInt32).toNat = 32 := rfl
      omega
    · have hself : c.toLower = c := dif_neg h
      rwa [hself]
  exact dif_neg hnot

/-- A character that folds to an ASCII character is one. -/
theorem toNat_lt_of_toLower {c : Char} (h : c.toLower.toNat < 128) : c.toNat < 128 := by
  by_cases hupper : c.val ≥ 'A'.val ∧ c.val ≤ 'Z'.val
  · have hle : c.val.toNat ≤ 90 := UInt32.le_iff_toNat_le.mp hupper.2
    exact Nat.lt_of_le_of_lt hle (by decide)
  · have hself : c.toLower = c := dif_neg hupper
    rwa [hself] at h

/-- Folding twice is folding once. -/
@[simp] theorem toAsciiLowercase_idem (s : Text) :
    s.toAsciiLowercase.toAsciiLowercase = s.toAsciiLowercase := by
  unfold toAsciiLowercase
  rw [List.map_map]
  exact List.map_congr_left (fun c _ => toLower_toLower c)

/-- Folding keeps a text empty or non-empty. -/
theorem toAsciiLowercase_eq_nil {s : Text} :
    s.toAsciiLowercase = [] ↔ s = [] :=
  List.map_eq_nil_iff

theorem eqIgnoreAsciiCase_iff {s t : Text} :
    eqIgnoreAsciiCase s t = true ↔ s.toAsciiLowercase = t.toAsciiLowercase :=
  decide_eq_true_iff

@[simp] theorem eqIgnoreAsciiCase_refl (s : Text) :
    eqIgnoreAsciiCase s s = true :=
  eqIgnoreAsciiCase_iff.mpr rfl

/-! ## Splitting -/

/-- What is before and after the first occurrence of a pattern; neither part has the pattern
itself, and nothing is found where it does not occur. -/
def splitOnce (pat : Text) : Text → Option (Text × Text)
  | [] => if pat = [] then some ([], []) else none
  | c :: s =>
    if pat.isPrefixOf (c :: s) then some ([], (c :: s).drop pat.length)
    else (splitOnce pat s).map fun parts => (c :: parts.1, parts.2)

/-- A text without a pattern at its end, as often as it is there. -/
def trimEndMatches (pat s : Text) : Text :=
  if pat ≠ [] ∧ pat.isSuffixOf s then trimEndMatches pat (s.take (s.length - pat.length))
  else s
termination_by s.length
decreasing_by
  rename_i h
  have hpat := List.length_pos_iff.mpr h.1
  have hle := (List.isSuffixOf_iff_suffix.mp h.2).length_le
  rw [List.length_take]
  omega

/-- A text without a pattern at its start, as often as it is there. -/
def trimStartMatches (pat s : Text) : Text :=
  if pat ≠ [] ∧ pat.isPrefixOf s then trimStartMatches pat (s.drop pat.length)
  else s
termination_by s.length
decreasing_by
  rename_i h
  have hpat := List.length_pos_iff.mpr h.1
  have hle := (List.isPrefixOf_iff_prefix.mp h.2).length_le
  rw [List.length_drop]
  omega

/-! ## Bytes of a text -/

/-- The UTF-8 bytes of a text, character after character. -/
def utf8 (s : Text) : Bytes := s.flatMap String.utf8EncodeChar

theorem utf8_injective : Function.Injective utf8 := by
  have hpre : ∀ s t : Text, utf8 s = utf8 t → s <+: t := by
    intro s t h
    refine List.isPrefix_of_utf8Encode_append_eq_utf8Encode ByteArray.empty ?_
    rw [ByteArray.append_empty, List.utf8Encode, List.utf8Encode]
    exact congrArg List.toByteArray h
  intro s t h
  exact (hpre s t h).eq_of_length_le (hpre t s h.symm).length_le

/-- The byte of an ASCII character. -/
theorem utf8EncodeChar_ascii (c : Char) (h : c.toNat < 128) :
    String.utf8EncodeChar c = [UInt8.ofNat c.toNat] := by
  unfold String.utf8EncodeChar
  exact if_pos (Nat.le_of_lt_succ h)

/-- Outside ASCII no byte of a character is one. -/
theorem utf8EncodeChar_large {c : Char} (h : 128 ≤ c.toNat) :
    ∀ b ∈ String.utf8EncodeChar c, 128 ≤ b.toNat := by
  have hlarge : ∀ x y, 128 ≤ y → x + y < 256 → 128 ≤ (UInt8.ofNat (x + y)).toNat := by
    intro x y hy hxy
    rw [UInt8.toNat_ofNat', Nat.mod_eq_of_lt hxy]
    exact hy.trans (Nat.le_add_left y x)
  have htail : ∀ n, 128 ≤ (UInt8.ofNat (n % 64 + 128)).toNat :=
    fun n => hlarge _ _ (by decide) (by omega)
  have hval : 128 ≤ c.val.toNat := h
  unfold String.utf8EncodeChar
  dsimp only
  rw [if_neg (by omega)]
  split
  · rw [List.forall_mem_cons, List.forall_mem_singleton]
    exact ⟨hlarge _ _ (by decide) (by omega), htail _⟩
  · split
    · rw [List.forall_mem_cons, List.forall_mem_cons, List.forall_mem_singleton]
      exact ⟨hlarge _ _ (by decide) (by omega), htail _, htail _⟩
    · rw [List.forall_mem_cons, List.forall_mem_cons, List.forall_mem_cons,
        List.forall_mem_singleton]
      exact ⟨hlarge _ _ (by decide) (by omega), htail _, htail _, htail _⟩

/-! ## Hexadecimal -/

/-- The lower-case digit of a number below 16, which is all it is asked for. -/
def hexDigit (n : ℕ) : Char :=
  ['0', '1', '2', '3', '4', '5', '6', '7', '8', '9', 'a', 'b', 'c', 'd',
    'e', 'f'].getD n '0'

/-- The value of a hexadecimal digit, in either case, and nothing for any other character. -/
def hexValue (c : Char) : Option ℕ :=
  if '0' ≤ c ∧ c ≤ '9' then some (c.toNat - '0'.toNat)
  else if 'a' ≤ c ∧ c ≤ 'f' then some (c.toNat - 'a'.toNat + 10)
  else if 'A' ≤ c ∧ c ≤ 'F' then some (c.toNat - 'A'.toNat + 10)
  else none

/-- Lower-case hexadecimal, two digits a byte, the higher one first. -/
def hexEncode : Bytes → Text
  | [] => []
  | b :: bs => hexDigit (b.toNat / 16) :: hexDigit (b.toNat % 16) :: hexEncode bs

/-- The byte string a hexadecimal text denotes: an even number of digits,
in either case, and nothing else. -/
def hexDecode : Text → Option Bytes
  | [] => some []
  | [_] => none
  | c :: d :: rest =>
    match hexValue c, hexValue d, hexDecode rest with
    | some h, some l, some bs => some (UInt8.ofNat (h * 16 + l) :: bs)
    | _, _, _ => none

theorem hexValue_hexDigit : ∀ n < 16, hexValue (hexDigit n) = some n := by
  decide

theorem toLower_hexDigit : ∀ n < 16, (hexDigit n).toLower = hexDigit n := by
  decide

theorem isAsciiHexdigit_hexDigit : ∀ n < 16, isAsciiHexdigit (hexDigit n) = true := by
  decide

private theorem high_lt (b : UInt8) : b.toNat / 16 < 16 := by
  have := b.toNat_lt
  omega

private theorem low_lt (b : UInt8) : b.toNat % 16 < 16 := Nat.mod_lt _ (by decide)

@[simp] theorem length_hexEncode (bs : Bytes) :
    (hexEncode bs).length = 2 * bs.length := by
  induction bs with
  | nil => rfl
  | cons b bs ih =>
    rw [hexEncode, List.length_cons, List.length_cons, ih, List.length_cons]
    omega

/-- **Decoding undoes encoding.** -/
@[simp] theorem hexDecode_hexEncode (bs : Bytes) :
    hexDecode (hexEncode bs) = some bs := by
  induction bs with
  | nil => rfl
  | cons b bs ih =>
    rw [hexEncode, hexDecode, hexValue_hexDigit _ (high_lt b),
      hexValue_hexDigit _ (low_lt b), ih]
    show some (UInt8.ofNat (b.toNat / 16 * 16 + b.toNat % 16) :: bs) = _
    rw [Nat.div_add_mod', UInt8.ofNat_toNat]

theorem hexEncode_injective : Function.Injective hexEncode := by
  intro x y h
  have hd := congrArg hexDecode h
  rw [hexDecode_hexEncode, hexDecode_hexEncode] at hd
  exact Option.some.inj hd

/-- Every character of an encoding is a hexadecimal digit. -/
theorem all_isAsciiHexdigit_hexEncode (bs : Bytes) :
    (hexEncode bs).all isAsciiHexdigit = true := by
  induction bs with
  | nil => rfl
  | cons b bs ih =>
    rw [hexEncode, List.all_cons, List.all_cons, ih,
      isAsciiHexdigit_hexDigit _ (high_lt b), isAsciiHexdigit_hexDigit _ (low_lt b)]
    rfl

/-- Hexadecimal digits are one byte each. -/
theorem utf8Len_hexEncode (bs : Bytes) : (hexEncode bs).utf8Len = 2 * bs.length := by
  have hdigit : ∀ n < 16, (hexDigit n).utf8Size = 1 := by decide
  induction bs with
  | nil => rfl
  | cons b bs ih =>
    show (hexDigit (b.toNat / 16)).utf8Size + ((hexDigit (b.toNat % 16)).utf8Size +
      (hexEncode bs).utf8Len) = _
    rw [hdigit _ (high_lt b), hdigit _ (Nat.mod_lt _ (by decide)), ih, List.length_cons]
    omega

/-- An encoding is its own folded form. -/
@[simp] theorem toAsciiLowercase_hexEncode (bs : Bytes) :
    (hexEncode bs).toAsciiLowercase = hexEncode bs := by
  induction bs with
  | nil => rfl
  | cons b bs ih =>
    show (hexDigit _).toLower :: (hexDigit _).toLower :: (hexEncode bs).toAsciiLowercase
      = _
    rw [ih, toLower_hexDigit _ (high_lt b), toLower_hexDigit _ (low_lt b)]
    rfl

/-- **Encodings that agree up to case encode the same bytes.** -/
theorem hexEncode_eqIgnoreAsciiCase {x y : Bytes} :
    eqIgnoreAsciiCase (hexEncode x) (hexEncode y) = true ↔ x = y := by
  rw [eqIgnoreAsciiCase_iff, toAsciiLowercase_hexEncode, toAsciiLowercase_hexEncode]
  exact hexEncode_injective.eq_iff

end Text
