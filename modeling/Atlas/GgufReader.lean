import Atlas.ByteReader

/-!
# Reading the metadata of a GGUF header

A GGUF file begins with key-value pairs. The reader goes through them once, keeps what a
model is described with, and skips every other value by its encoded length. It reads at
most 4096 pairs, and at most 64 KiB of a string: of a longer one it reads the beginning,
and goes on behind it as if the string ended there.
-/

namespace Atlas

open Text ByteReader Program

/-- What a model file's header says about the model, all of it optional. -/
structure FileMeta where
  format : Option Text
  name : Option Text
  architecture : Option Text
  quantization : Option Text
  sizeLabel : Option Text
  license : Option Text
  basename : Option Text
  finetune : Option Text
  sourceUrl : Option Text
  deriving DecidableEq

/-- The fields that hold the string of one key, which are shown as they stand. -/
inductive GgufField where
  | name
  | architecture
  | sizeLabel
  | license
  | basename
  | finetune
  deriving DecidableEq

namespace GgufField

/-- The key under which a field stands in the header. -/
def key : GgufField → Text
  | name => "general.name".toList
  | architecture => "general.architecture".toList
  | sizeLabel => "general.size_label".toList
  | license => "general.license".toList
  | basename => "general.basename".toList
  | finetune => "general.finetune".toList

/-- Every field that is taken over as it is, in the order of the source. -/
def all : List GgufField := [name, architecture, sizeLabel, license, basename, finetune]

end GgufField

/-- The field a key is for, or nothing where the key is not one of those shown. -/
def ggufField (key : Text) : Option GgufField := GgufField.all.find? fun f => f.key = key

/-- The keys that say where a model came from, of which the first that has a string counts. -/
def sourceKeys : List Text :=
  ["general.source.url".toList, "general.repo_url".toList,
    "general.source.huggingface.repository".toList]

/-- The key of the number that names the quantization, which is no string. -/
def fileTypeKey : Text := "general.file_type".toList

namespace FileMeta

/-- What is known of a GGUF file before its pairs are read. -/
def gguf : FileMeta where
  format := some "gguf".toList
  name := none
  architecture := none
  quantization := none
  sizeLabel := none
  license := none
  basename := none
  finetune := none
  sourceUrl := none

/-- What was found for a field so far, or nothing. -/
def get (m : FileMeta) : GgufField → Option Text
  | .name => m.name
  | .architecture => m.architecture
  | .sizeLabel => m.sizeLabel
  | .license => m.license
  | .basename => m.basename
  | .finetune => m.finetune

/-- Put down what was found for a field, or that nothing was. -/
def set (m : FileMeta) (v : Option Text) : GgufField → FileMeta
  | .name => { m with name := v }
  | .architecture => { m with architecture := v }
  | .sizeLabel => { m with sizeLabel := v }
  | .license => { m with license := v }
  | .basename => { m with basename := v }
  | .finetune => { m with finetune := v }

theorem get_set (m : FileMeta) (v : Option Text) (f g : GgufField) :
    (m.set v f).get g = if g = f then v else m.get g := by
  cases f <;> cases g <;> rfl

@[simp] theorem sourceUrl_set (m : FileMeta) (v : Option Text) (f : GgufField) :
    (m.set v f).sourceUrl = m.sourceUrl := by
  cases f <;> rfl

@[simp] theorem format_set (m : FileMeta) (v : Option Text) (f : GgufField) :
    (m.set v f).format = m.format := by
  cases f <;> rfl

end FileMeta

/-- The most pairs that are read, however many the header announces; the rest is left unread. -/
def ggufMaxKv : ℕ := 4096

/-- The most bytes that are read of a string, however long it is (64 KiB). -/
def ggufMaxStr : ℕ := 64 * 1024

/-- The most bytes that an array may take to be passed over (256 MiB). -/
def ggufMaxArrayBytes : ℕ := 256 * 1024 * 1024

/-! ## Values -/

/-- A string: its length, and so many bytes, of which at most 64 KiB are read. -/
def readGgufString : Reader Text := do
  let len ← readU64
  let bytes ← readExact (min len ggufMaxStr)
  pure (fromUtf8Lossy bytes)

/-- How many bytes an array's element of a type takes, none where the type is a string, an
array or unknown. -/
def scalarWidth : ℕ → Option ℕ
  | 0 => some 1
  | 1 => some 1
  | 7 => some 1
  | 2 => some 2
  | 3 => some 2
  | 4 => some 4
  | 5 => some 4
  | 6 => some 4
  | 10 => some 8
  | 11 => some 8
  | 12 => some 8
  | _ => none

/-- 64-bit addition that stays at the largest number, as the source's saturating addition does. -/
def saturatingAdd (a b : ℕ) : ℕ := min (a + b) (2 ^ 64 - 1)

/-- Skip so many strings of an array, unless they are too long together. -/
def skipStrings : ℕ → ℕ → Reader Unit
  | 0, _ => pure ()
  | count + 1, read => do
    let n ← readU64
    let len := min n ggufMaxStr
    skip len
    let read := saturatingAdd (saturatingAdd read len) 8
    if read > ggufMaxArrayBytes then throw () else skipStrings count read

/-- Skip the elements of an array of scalars, unless they are too long together. -/
def skipScalars (elemType count : ℕ) : Reader Unit :=
  match scalarWidth elemType with
  | none => throw ()
  | some each => if count * each > ggufMaxArrayBytes then throw () else skip (count * each)

/-- Skip a value of a type: a scalar by its width, a string by its length up to 64 KiB, and
an array by its elements. -/
def skipGgufValue (vtype : ℕ) : Reader Unit :=
  if vtype = 8 then do
    let n ← readU64
    skip (min n ggufMaxStr)
  else if vtype = 9 then do
    let elemType ← readU32
    let count ← readU64
    if elemType = 8 then skipStrings count 0 else skipScalars elemType count
  else match scalarWidth vtype with
    | none => throw ()
    | some width => skip width

/-- A value as a string, if it is one; no failure is passed on. -/
def readGgufValueString (vtype : ℕ) : Reader (Option Text) :=
  if vtype = 8 then do
    let s ← result readGgufString
    pure (s.toOption.filter fun s => s.trim ≠ [])
  else do
    let _ ← result (skipGgufValue vtype)
    pure none

/-- A value as a 32-bit number, if it is of 32 or 64 bits; no failure is passed on. -/
def readGgufValueU32 (vtype : ℕ) : Reader (Option ℕ) :=
  if vtype = 4 ∨ vtype = 5 then do
    let v ← result readU32
    pure v.toOption
  else if vtype = 10 ∨ vtype = 11 then do
    let v ← result readU64
    pure (v.toOption.map fun v => v % 2 ^ 32)
  else do
    let _ ← result (skipGgufValue vtype)
    pure none

/-! ## Pairs -/

/-- What is known after some pairs: the fields found so far, and the file type that names
the quantization. -/
structure GgufScan where
  fileMeta : FileMeta
  fileType : Option ℕ

/-- Read the value of a key: a shown field or the first source as a string, the file type as
a number, and skip any other. -/
def readEntry (key : Text) (vtype : ℕ) (scan : GgufScan) : Reader GgufScan :=
  match ggufField key with
  | some field => do
    let v ← readGgufValueString vtype
    pure { scan with fileMeta := scan.fileMeta.set v field }
  | none =>
    if key ∈ sourceKeys then
      if scan.fileMeta.sourceUrl = none then do
        let v ← readGgufValueString vtype
        pure { scan with fileMeta := { scan.fileMeta with sourceUrl := v } }
      else do
        skipGgufValue vtype
        pure scan
    else if key = fileTypeKey then do
      let v ← readGgufValueU32 vtype
      pure { scan with fileType := v }
    else do
      skipGgufValue vtype
      pure scan

/-- Read so many pairs, each its key, its type and its value; the first that fails ends the
reading. -/
def readEntries : ℕ → GgufScan → Reader GgufScan
  | 0, scan => pure scan
  | n + 1, scan => do
    let key ← readGgufString
    let vtype ← readU32
    let scan ← readEntry key vtype scan
    readEntries n scan

/-- The labels of the file types that have one, by the number GGUF gives each. -/
def quantLabels : List (ℕ × Text) :=
  [(0, "F32".toList), (1, "F16".toList), (2, "Q4_0".toList), (3, "Q4_1".toList),
    (7, "Q8_0".toList), (8, "Q5_0".toList), (9, "Q5_1".toList), (10, "Q2_K".toList),
    (11, "Q3_K_S".toList), (12, "Q3_K_M".toList), (13, "Q3_K_L".toList),
    (14, "Q4_K_S".toList), (15, "Q4_K_M".toList), (16, "Q5_K_S".toList),
    (17, "Q5_K_M".toList), (18, "Q6_K".toList), (19, "IQ2_XXS".toList),
    (20, "IQ2_XS".toList), (21, "Q2_K_S".toList), (23, "IQ3_XXS".toList),
    (24, "IQ1_S".toList), (25, "IQ4_NL".toList), (26, "IQ3_S".toList),
    (27, "IQ3_M".toList), (28, "IQ2_S".toList), (29, "IQ2_M".toList),
    (30, "IQ4_XS".toList), (31, "IQ1_M".toList), (32, "BF16".toList)]

/-- The label of a file type, or nothing where the number is not in the table. -/
def quantFromFileType (ft : ℕ) : Option Text := quantLabels.lookup ft

/-- The metadata of a header behind its magic number and version, at most so many pairs of
it, and the quantization its file type names. -/
def readGgufMeta (version : ℕ) : Reader FileMeta := do
  let width := if 2 ≤ version then 8 else 4
  let _tensorCount ← readLe width
  let kvCount ← readLe width
  let scan ← readEntries (min kvCount ggufMaxKv) ⟨FileMeta.gguf, none⟩
  match scan.fileType with
  | some ft => pure { scan.fileMeta with quantization := quantFromFileType ft }
  | none => pure scan.fileMeta

end Atlas
