import Atlas.Inodes
import Atlas.Installs

/-!
# The files of the store

The store seen as files: names in its directories and outside them, the nodes
they lead to, and the read-only permission of each node. A blob is published by
moving a finished temp to its name and made read-only there; an install view is
a reflink, a hard link or a copy of it. Before an existing destination is
replaced or removed its permission is cleared, which goes to the node and so,
where the destination is a hard link, to the blob.

What the operating system answers is part of each operation. `committed` is not
in the program: it remembers what was published under each name and not removed
since.
-/

namespace Atlas

open Text Program

/-- The names the store uses under its root, and all others, which stand for the places
where models are installed. -/
inductive StorePath where
  | blob (key : Text)
  | blobMeta (key : Text)
  /-- Where a temp that cannot be renamed is copied to before it is published. -/
  | incoming (key : Text)
  | tmp (name : Text)
  | quarantine (dir label : Text)
  | outside (place : Place)
  deriving DecidableEq, Repr

namespace StorePath

/-- A name in the directories of the store; what lies outside belongs to the user. -/
def Inside : StorePath → Prop
  | outside _ => False
  | _ => True

instance : DecidablePred Inside
  | outside _ => .isFalse id
  | blob _ => .isTrue trivial
  | blobMeta _ => .isTrue trivial
  | incoming _ => .isTrue trivial
  | tmp _ => .isTrue trivial
  | quarantine _ _ => .isTrue trivial

/-- The file name of a key below the directories of its first characters. -/
def shard (key : Text) : Text :=
  "cas/blake3/".toList ++ key.take 2 ++ "/".toList ++ (key.drop 2).take 2 ++ "/".toList ++ key

/-- A path relative to the root of the store, as errors name it. -/
def display : StorePath → Text
  | blob key => shard key ++ ".blob".toList
  | blobMeta key => shard key ++ ".meta.json".toList
  | incoming key => shard key ++ ".blob.incoming".toList
  | tmp name => "tmp/".toList ++ name
  | quarantine dir label => "quarantine/".toList ++ dir ++ "/".toList ++ label
  | outside place => List.intercalate "/".toList place

/-- A path is a directory's own or below it, for the places outside the store; the store's
names have nothing below them. -/
def below : StorePath → StorePath → Bool
  | outside p, outside q => p <+: q
  | _, _ => false

end StorePath

/-- The files, and what was committed under each name, which is what the file is compared
with later. -/
structure Vault where
  fs : Inodes StorePath Bytes
  committed : StorePath → Option Bytes

/-- A store without files and without anything that was ever committed. -/
def Vault.empty : Vault := ⟨⟨fun _ => none, fun _ => ⟨[], false⟩, 0⟩, fun _ => none⟩

namespace Vault

/-- Change the files and leave the record of what was committed as it is. -/
def onFiles (f : Inodes StorePath Bytes → Inodes StorePath Bytes) : Program Vault Error Unit :=
  modify fun v => { v with fs := f v.fs }

/-- Why a call fails, if it does, and the file it leaves, if it touched it. -/
abbrev WriteFailure := Option (Text × Option (FileNode Bytes))

/-- Write a whole file. A read-only file cannot be opened for writing. -/
def writeFile (failure : WriteFailure) (p : StorePath) (f : FileNode Bytes) :
    Program Vault Error Unit := do
  let v ← get
  if (v.fs.file p).any FileNode.readonly then
    throw (.fs p.display "Permission denied".toList)
  else match failure with
    | some (reason, none) => throw (.fs p.display reason)
    | some (reason, some left) => do
      onFiles (Inodes.put p left)
      throw (.fs p.display reason)
    | none => onFiles (Inodes.put p f)

/-- Clear or set a permission, if the operating system lets us; nobody asks. -/
def setReadonly (works : Bool) (p : StorePath) (readonly : Bool) : Program Vault Error Unit :=
  whenever (works = true) (onFiles (Inodes.chmod p readonly))

/-- Refuse a call for a reason, if there is one, and go on otherwise. -/
def refuse (path : Text) : Option Text → Program Vault Error Unit
  | some reason => throw (.fs path reason)
  | none => pure ()

/-! ## Committing -/

/-- What the operating system answers while a sidecar is written: its directory, and the
write itself. -/
structure MetaIo where
  createDirAll : Option Text
  write : WriteFailure

/-- Write the sidecar of a blob, after making its directory; a directory that cannot be made
stops it. -/
def writeMeta (io : MetaIo) (key : Text) (sidecar : Bytes) : Program Vault Error Unit := do
  refuse (parentPath (StorePath.blobMeta key).display) io.createDirAll
  writeFile io.write (.blobMeta key) ⟨sidecar, false⟩

/-- What the operating system answers to each call of a commit, in the order the commit
makes them. -/
structure CommitIo where
  createDirAll : Option Text
  /-- The temp can be renamed to the blob. -/
  renames : Bool
  copy : WriteFailure
  renameIncoming : Option Text
  removesTemp : Bool
  /-- The blob can be made read-only. -/
  protects : Bool
  writeMeta : MetaIo

/-- Publish a file under the name of a blob, and record what was committed under it. -/
def publish (p : StorePath) (key : Text) : Program Vault Error Unit :=
  modify fun v =>
    { fs := v.fs.rename p (.blob key)
      committed := Function.update v.committed (.blob key)
        ((v.fs.file p).map FileNode.content) }

/-- Atomic publish: a rename, or a copy to a sibling of the blob and a rename of that. -/
def publishTemp (io : CommitIo) (tmp key : Text) : Program Vault Error Unit := do
  let v ← get
  match v.fs.file (.tmp tmp) with
  | none => throw (.fs (StorePath.incoming key).display "No such file or directory".toList)
  | some f =>
    if io.renames then publish (.tmp tmp) key
    else do
      writeFile io.copy (.incoming key) f
      refuse (StorePath.blob key).display io.renameIncoming
      publish (.incoming key) key
      whenever (io.removesTemp = true) (onFiles (Inodes.unlink (.tmp tmp)))

/-- Commit a finished, *already verified* temp file into the store. If the blob
already exists, the temp file is removed. -/
def commitBlob (io : CommitIo) (tmp blake3 : Text) (sidecar : Bytes) :
    Program Vault Error Unit := do
  let key ← ofExcept (Cas.blobPath blake3)
  let v ← get
  if (v.fs.file (.blob key)).isSome then do
    whenever (io.removesTemp = true) (onFiles (Inodes.unlink (.tmp tmp)))
    if (v.fs.file (.blobMeta key)).isSome then pure ()
    else writeMeta io.writeMeta key sidecar
  else do
    refuse (parentPath (StorePath.blob key).display) io.createDirAll
    publishTemp io tmp key
    setReadonly io.protects (.blob key) true
    writeMeta io.writeMeta key sidecar

/-- Whether a blob is there under its name, without reading it; a text that is no key names
none. -/
def hasBlob (v : Vault) (blake3 : Text) : Bool :=
  match Cas.blobPath blake3 with
  | .ok key => (v.fs.file (.blob key)).isSome
  | .error _ => false

/-- What the operating system answers to an import: whether the file can be cloned, how the
copies go, and the commit's own answers. -/
structure ImportIo where
  /-- The file can be cloned, and the clone is read-only or not. -/
  reflink : Option Bool
  firstCopy : WriteFailure
  secondCopy : WriteFailure
  commit : CommitIo

/-- Clone a file to a temp where the file system can and no temp is in the way, and copy it
otherwise. -/
def reflinkOrCopy (io : ImportIo) (src : FileNode Bytes) (p : StorePath) :
    Program Vault Error Unit := do
  let v ← get
  match io.reflink, v.fs.file p with
  | some readonly, none => onFiles (Inodes.create p ⟨src.content, readonly⟩)
  | _, _ => writeFile io.firstCopy p src

/-- Copy a file to a temp, trying again if that fails, since a clone may be refused for
reasons a plain copy does not have. -/
def copyToTemp (io : ImportIo) (src : FileNode Bytes) (p : StorePath) :
    Program Vault Error Unit := do
  match ← result (reflinkOrCopy io src p) with
  | .ok () => pure ()
  | .error _ => writeFile io.secondCopy p src

/-- Import an existing on-disk file into the store by copying it into `tmp/` and
committing under the given (already computed) hashes. -/
def importFile (io : ImportIo) (src : FileNode Bytes) (blake3 : Text) (sidecar : Bytes) :
    Program Vault Error Unit := do
  let v ← get
  if hasBlob v blake3 then do
    let key ← ofExcept (Cas.blobPath blake3)
    writeMeta io.commit.writeMeta key sidecar
  else do
    let tmp := Cas.newTempPath "import".toList (blake3.take 8)
    copyToTemp io src (.tmp tmp)
    commitBlob io.commit tmp blake3 sidecar

/-! ## Views -/

/-- What the operating system answers while a view is made, from the directory it lies in to
the link or copy. -/
structure MaterializeIo where
  createDirAll : Option Text
  /-- A directory is at the destination, and why it is not removed as a file. -/
  isDir : Option Text
  /-- The permission of what is at the destination can be cleared. -/
  clears : Bool
  removeFile : Option Text
  /-- The blob can be cloned, and the clone is read-only or not. -/
  reflink : Option Bool
  hardLinks : Bool
  copy : WriteFailure
  /-- The permission of the view can be cleared. -/
  opens : Bool

/-- Make way for a view. An unlink of a read-only file may be denied, so the
permission is cleared first. -/
def clearDest (io : MaterializeIo) (dest : StorePath) : Program Vault Error Unit := do
  setReadonly io.clears dest false
  refuse dest.display io.removeFile
  onFiles (Inodes.unlink dest)

/-- Clone, link or copy a blob to a name that is free. -/
def linkBlob (io : MaterializeIo) (key : Text) (dest : StorePath) :
    Program Vault Error LinkKind := do
  let v ← get
  match v.fs.file (.blob key) with
  | none => throw (.fs dest.display "No such file or directory".toList)
  | some f =>
    match io.reflink with
    | some readonly => do
      onFiles (Inodes.create dest ⟨f.content, readonly⟩)
      setReadonly io.opens dest false
      pure .reflink
    | none =>
      if io.hardLinks then do
        onFiles (Inodes.link (.blob key) dest)
        pure .hardlink
      else do
        writeFile io.copy dest f
        setReadonly io.opens dest false
        pure .copy

/-- Materialize an install view at `dest` pointing at the blob's content. Tries
reflink, then hardlink, then a full copy. -/
def materialize (io : MaterializeIo) (blake3 : Text) (dest : StorePath) :
    Program Vault Error LinkKind := do
  let key ← ofExcept (Cas.blobPath blake3)
  let v ← get
  if (v.fs.file (.blob key)).isNone then
    throw (.other ("blob ".toList ++ blake3 ++ " not present in cache".toList))
  else do
    refuse (parentPath dest.display) io.createDirAll
    refuse dest.display io.isDir
    whenever ((v.fs.file dest).isSome) (clearDest io dest)
    linkBlob io key dest

/-- What the operating system answers while a view is removed; a directory may be removed in
part before it fails. -/
structure RemoveIo where
  symlinkMetadata : Option Text
  isDir : Bool
  removeDirAll : Option (Text × (StorePath → Bool))
  clears : Bool
  removeFile : Option Text

/-- Remove what is at the destination of a view, a file or a directory. -/
def removeInstallDest (io : RemoveIo) (path : StorePath) : Program Vault Error Unit := do
  refuse path.display io.symlinkMetadata
  if io.isDir then
    match io.removeDirAll with
    | some (reason, gone) => do
      onFiles (Inodes.unlinkAll fun p => path.below p && gone p)
      throw (.fs path.display reason)
    | none => onFiles (Inodes.unlinkAll path.below)
  else do
    let v ← get
    match v.fs.file path with
    | none => pure ()
    | some f =>
      -- committed blobs are read-only; the bit is cleared so that this works
      whenever (f.readonly = true) (setReadonly io.clears path false)
      refuse path.display io.removeFile
      onFiles (Inodes.unlink path)

/-! ## Temps and removal -/

/-- A transfer leaves a temp with these bytes, which a commit may publish later. -/
def fillTemp (name : Text) (data : Bytes) : Program Vault Error Unit :=
  writeFile none (.tmp name) ⟨data, false⟩

/-- What the operating system answers while a temp is put into quarantine. -/
structure QuarantineIo where
  createDirAll : Option Text
  renames : Bool
  copy : WriteFailure
  removesTemp : Bool

/-- Move bytes into quarantine rather than deleting them, by a rename or, across file
systems, by a copy and a removal. -/
def quarantine (io : QuarantineIo) (tmp dir label : Text) : Program Vault Error Unit := do
  refuse (parentPath (StorePath.quarantine dir label).display) io.createDirAll
  let v ← get
  match v.fs.file (.tmp tmp) with
  | none => pure ()
  | some f =>
    if io.renames then onFiles (Inodes.rename (.tmp tmp) (.quarantine dir label))
    else do
      writeFile io.copy (.quarantine dir label) f
      whenever (io.removesTemp = true) (onFiles (Inodes.unlink (.tmp tmp)))

/-- What the operating system answers while a blob is removed: whether the protection can be
lifted, and the removal. -/
structure RemoveBlobIo where
  clears : StorePath → Bool
  removeFile : StorePath → Option Text

/-- Remove a file of the store, if it is there, after lifting its write protection. -/
def removeStored (io : RemoveBlobIo) (p : StorePath) : Program Vault Error Unit := do
  let v ← get
  whenever ((v.fs.file p).isSome) (do
    setReadonly (io.clears p) p false
    refuse p.display (io.removeFile p)
    modify fun v => ⟨v.fs.unlink p, Function.update v.committed p none⟩)

/-- Delete a blob and its sidecar, which is what evicting from the cache does to the disk. -/
def removeBlob (io : RemoveBlobIo) (blake3 : Text) : Program Vault Error Unit := do
  let key ← ofExcept (Cas.blobPath blake3)
  removeStored io (.blob key)
  removeStored io (.blobMeta key)

/-! ## Runs -/

end Vault

/-- An operation on the files of the store, with what it meets. -/
inductive VaultOp where
  | fillTemp (name : Text) (data : Bytes)
  | commitBlob (io : Vault.CommitIo) (tmp blake3 : Text) (sidecar : Bytes)
  | importFile (io : Vault.ImportIo) (src : FileNode Bytes) (blake3 : Text) (sidecar : Bytes)
  | materialize (io : Vault.MaterializeIo) (blake3 : Text) (dest : StorePath)
  | removeInstallDest (io : Vault.RemoveIo) (path : StorePath)
  | quarantine (io : Vault.QuarantineIo) (tmp dir label : Text)
  | removeBlob (io : Vault.RemoveBlobIo) (blake3 : Text)

namespace Vault

/-- The files an operation leaves, however it ends: an error or a crash in the middle keeps
what was done before it. -/
def step (v : Vault) : VaultOp → Vault
  | .fillTemp name data => (fillTemp name data v).2
  | .commitBlob io tmp blake3 sidecar => (commitBlob io tmp blake3 sidecar v).2
  | .importFile io src blake3 sidecar => (importFile io src blake3 sidecar v).2
  | .materialize io blake3 dest => (materialize io blake3 dest v).2
  | .removeInstallDest io path => (removeInstallDest io path v).2
  | .quarantine io tmp dir label => (quarantine io tmp dir label v).2
  | .removeBlob io blake3 => (removeBlob io blake3 v).2

/-- The files after a sequence of operations, from an empty store. -/
def runOps (ops : List VaultOp) : Vault := ops.foldl step empty

end Vault

end Atlas
