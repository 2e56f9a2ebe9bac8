import Atlas.GgufReader

/-!
# GGUF headers, and what they say

What a GGUF header holds and how it is written: pairs of a key and a value, in
little-endian order, where a value is a scalar, a string or an array, and an array is of
scalars, of strings or of arrays. `GgufHeader.fileMeta` is what the pairs say about the
model, read off them directly; that the reader finds it in the bytes is the subject of the
module that follows.
-/

namespace Atlas

open Text ByteReader

/-! ## Values -/

/-- The types of a header's values that have a width of their own. -/
inductive ScalarType where
  | uint8
  | int8
  | uint16
  | int16
  | uint32
  | int32
  | float32
  | bool
  | uint64
  | int64
  | float64
  deriving DecidableEq

namespace ScalarType

/-- The number of the type, as GGUF writes it before a value. -/
def tag : ScalarType → ℕ
  | uint8 => 0
  | int8 => 1
  | uint16 => 2
  | int16 => 3
  | uint32 => 4
  | int32 => 5
  | float32 => 6
  | bool => 7
  | uint64 => 10
  | int64 => 11
  | float64 => 12

/-- How many bytes it takes, whatever the value is. -/
def width : ScalarType → ℕ
  | uint8 => 1
  | int8 => 1
  | uint16 => 2
  | int16 => 2
  | uint32 => 4
  | int32 => 4
  | float32 => 4
  | bool => 1
  | uint64 => 8
  | int64 => 8
  | float64 => 8

theorem width_pos (t : ScalarType) : 0 < t.width := by
  cases t <;> decide

theorem scalarWidth_tag (t : ScalarType) : scalarWidth t.tag = some t.width := by
  cases t <;> rfl

theorem tag_ne (t : ScalarType) : t.tag ≠ 8 ∧ t.tag ≠ 9 ∧ t.tag < 256 ^ 4 := by
  cases t <;> decide

end ScalarType

/-- A scalar, as its bits, which are as many as its type has. -/
structure Scalar where
  type : ScalarType
  bits : BitVec (8 * type.width)

/-- An array of a GGUF header, whose elements all have one type and may be arrays again. -/
inductive GgufArray where
  | scalars (type : ScalarType) (elements : List (BitVec (8 * type.width)))
  | strings (elements : List Text)
  | arrays (elements : List GgufArray)

/-- A value of a GGUF header: a scalar, a string, or an array. -/
inductive GgufValue where
  | scalar (s : Scalar)
  | string (s : Text)
  | array (a : GgufArray)

/-! ## How they are written -/

/-- A string: its length as eight bytes, and its bytes in UTF-8. -/
def writeString (s : Text) : Bytes := toLe 8 (utf8 s).length ++ utf8 s

namespace GgufArray

mutual

/-- An array: the type of its elements, how many there are, and the elements. -/
def write : GgufArray → Bytes
  | scalars type elements =>
    toLe 4 type.tag ++ (toLe 8 elements.length ++
      elements.flatMap fun bits => toLe type.width bits.toNat)
  | strings elements => toLe 4 8 ++ (toLe 8 elements.length ++ elements.flatMap writeString)
  | arrays elements => toLe 4 9 ++ (toLe 8 elements.length ++ writeAll elements)

/-- The elements of an array of arrays, one after another. -/
def writeAll : List GgufArray → Bytes
  | [] => []
  | a :: rest => write a ++ writeAll rest

end

/-- The elements take at most 256 MiB, in each array; a string's length fits its field. -/
def Fits : GgufArray → Prop
  | scalars type elements => elements.length * type.width ≤ ggufMaxArrayBytes
  | strings elements => (elements.map fun s => (utf8 s).length + 8).sum ≤ ggufMaxArrayBytes
  | arrays elements => (writeAll elements).length ≤ ggufMaxArrayBytes

end GgufArray

namespace GgufValue

/-- The number of a value's type, which stands before the value, as GGUF counts types. -/
def tag : GgufValue → ℕ
  | scalar s => s.type.tag
  | string _ => 8
  | array _ => 9

/-- The bytes of a value, without the number of its type, as a header holds it. -/
def write : GgufValue → Bytes
  | scalar s => toLe s.type.width s.bits.toNat
  | string s => writeString s
  | array a => a.write

/-- The value can be written: its length is a number of eight bytes, and an array is no
longer than the reader accepts. -/
def Fits : GgufValue → Prop
  | scalar _ => True
  | string s => (utf8 s).length < 2 ^ 64
  | array a => a.Fits

/-- The string a value is, or nothing where it is a number or an array. -/
def text : GgufValue → Option Text
  | string s => some s
  | _ => none

end GgufValue

namespace Scalar

/-- The number an integer is, signed or unsigned as its type says; floats and booleans are none. -/
def integer (s : Scalar) : Option ℤ :=
  match s.type with
  | .uint8 => some s.bits.toNat
  | .uint16 => some s.bits.toNat
  | .uint32 => some s.bits.toNat
  | .uint64 => some s.bits.toNat
  | .int8 => some s.bits.toInt
  | .int16 => some s.bits.toInt
  | .int32 => some s.bits.toInt
  | .int64 => some s.bits.toInt
  | _ => none

end Scalar

/-- The number a value is, if it is an integer; a float, a boolean, a string or an array is
none. -/
def GgufValue.integer : GgufValue → Option ℤ
  | scalar s => s.integer
  | _ => none

/-! ## Headers -/

/-- A pair of a header: a key and its value, in the order they are stored. -/
abbrev GgufPair := Text × GgufValue

/-- A pair: the key, the number of the value's type, and the value. -/
def GgufPair.write (p : GgufPair) : Bytes := writeString p.1 ++ (toLe 4 p.2.tag ++ p.2.write)

/-- A key whose string is shown to the user, so that a blank one counts as missing. -/
def exposedKeys : List Text := GgufField.all.map GgufField.key ++ sourceKeys

/-- A GGUF header, behind its magic number, as a well-formed file has it: a known version,
bounded counts, keys once each. -/
structure GgufHeader where
  version : ℕ
  tensorCount : ℕ
  pairs : List GgufPair
  version_two_three : version = 2 ∨ version = 3
  tensorCount_lt : tensorCount < 2 ^ 64
  pairs_le : pairs.length ≤ 4096
  keys_nodup : (pairs.map Prod.fst).Nodup
  fits : ∀ p ∈ pairs, (utf8 p.1).length < 2 ^ 64 ∧ p.2.Fits
  /-- A string that is shown is not blank. -/
  not_blank : ∀ p ∈ pairs, p.1 ∈ exposedKeys → ∀ s, p.2.text = some s → s.trim ≠ []

/-- The value of a key, or nothing where no pair has it. -/
def valueOf (pairs : List GgufPair) (key : Text) : Option GgufValue :=
  (pairs.find? fun p => p.1 = key).map Prod.snd

/-- The string of a key, or nothing where the key is missing or its value is no string. -/
def textOf (pairs : List GgufPair) (key : Text) : Option Text :=
  (valueOf pairs key).bind GgufValue.text

/-- The first string of the keys that say where the model came from. -/
def sourceOf (pairs : List GgufPair) : Option Text :=
  pairs.findSome? fun p => if p.1 ∈ sourceKeys then p.2.text else none

/-- The label of a file type given as a number, none for a negative one. -/
def quantOf (n : ℤ) : Option Text := if 0 ≤ n then quantFromFileType n.toNat else none

namespace GgufHeader

/-- A header behind its version: the tensor count, the number of pairs, and the pairs one
after another. -/
def write (h : GgufHeader) : Bytes :=
  toLe 8 h.tensorCount ++ (toLe 8 h.pairs.length ++ h.pairs.flatMap GgufPair.write)

/-- **What a header says about the model**, read off its pairs directly, without any reader. -/
def fileMeta (h : GgufHeader) : FileMeta where
  format := some "gguf".toList
  name := textOf h.pairs "general.name".toList
  architecture := textOf h.pairs "general.architecture".toList
  quantization := ((valueOf h.pairs fileTypeKey).bind GgufValue.integer).bind quantOf
  sizeLabel := textOf h.pairs "general.size_label".toList
  license := textOf h.pairs "general.license".toList
  basename := textOf h.pairs "general.basename".toList
  finetune := textOf h.pairs "general.finetune".toList
  sourceUrl := sourceOf h.pairs

/-- **Decoding undoes encoding**: whatever follows the header, the reader finds in it what
its pairs say. -/
def ReadsBack (h : GgufHeader) : Prop :=
  ∀ rest, (readGgufMeta h.version (h.write ++ rest)).1 = .ok h.fileMeta

end GgufHeader

end Atlas
