import Atlas.EngineRule
import Atlas.FileTree

/-!
# Install views

An install view is a file outside the store that shares its bytes with a blob,
and a row that says so. `materializeInstall` makes the views of a manifest;
`Machine.evictCache` removes the views of a blob together with the blob. A row
names its file by the path it was asked for by, and the table has any number of
rows for one path: materializing over an older view replaces the file and
leaves the older row.

The state here is the store with the files outside it. Which place a path leads
to is a parameter, for two paths can lead to the same one, and so is what the
operating system answers where the files alone do not decide.
-/

namespace Atlas

open Text Program

/-- A place in the file system: what a path comes to once it is resolved. -/
abbrev Place := List Text

/-- How an install view shares its bytes with the blob, as the file system allows: a clone
on write, a second name, or a copy. -/
inductive LinkKind where
  | reflink
  | hardlink
  | copy
  deriving DecidableEq, Repr

/-- The store, and the files outside it, which are the views that were installed. -/
structure Machine where
  disk : Disk
  files : FileTree Text Bytes

/-- A fresh installation: an empty store and no files. -/
def Machine.empty : Machine := ⟨Disk.empty, []⟩

/-- What the operating system answers to a call on a path; each answer is a parameter of the
model, and nothing means that the call succeeds. -/
structure Os where
  /-- Why the directories above a path cannot be created. -/
  createDirAll : Text → Option Text
  /-- Why nothing can be learnt about a path, other than that nothing is there. -/
  symlinkMetadata : Text → Option Text
  /-- Why a file cannot be removed. -/
  removeFile : Text → Option Text
  /-- Why a directory cannot be removed, and what of it is gone by then. -/
  removeDirAll : Text → Option (Text × (Place → Bool))
  /-- How a blob is linked to a path, or why it is neither linked nor copied,
  and what the copy left. -/
  link : Text → Except (Text × Option Bytes) LinkKind

/-- An operating system that refuses nothing and links in the way given. -/
def Os.willing (kind : LinkKind) : Os :=
  ⟨fun _ => none, fun _ => none, fun _ => none, fun _ => none, fun _ => .ok kind⟩

/-- A view that was made, and how the file system made it. -/
structure InstallView where
  artifactPath : Text
  dest : Text
  linkKind : LinkKind
  deriving DecidableEq, Repr

/-- A relative path in a directory, with one slash between the two. -/
def joinDest (dir path : Text) : Text :=
  if dir = [] ∨ dir.getLast? = some '/' then dir ++ path else dir ++ "/".toList ++ path

/-- What is above the last component of a path, without the separator; a path of a single
component has nothing above it. -/
def parentPath (path : Text) : Text :=
  ((path.reverse.dropWhile fun c => c ≠ '/').drop 1).reverse

namespace Machine

/-- Run a program of the engine on the store; the files outside it stay as they are. -/
def onDisk {α : Type} (x : Program Disk Error α) : Program Machine Error α := fun h =>
  ((x h.disk).1, { h with disk := (x h.disk).2 })

@[simp] theorem onDisk_apply {α : Type} (x : Program Disk Error α) (h : Machine) :
    onDisk x h = ((x h.disk).1, { h with disk := (x h.disk).2 }) := rfl

variable (locate : Text → Place) (os : Os)

/-- A file stands where a directory would have to be, so that creating the directories above
the place fails. -/
def blocked (p : Place) (h : Machine) : Bool :=
  h.files.any fun f => f.1 <+: p ∧ f.1 ≠ p

/-- Something is at a place: a file, or a directory with files below it. -/
def occupied (p : Place) (h : Machine) : Bool :=
  FileTree.isDir p h.files || (FileTree.contentAt p h.files).isSome

/-! ## Materializing -/

/-- Make way for a view: the file that is there is removed. -/
def clearDest (dest : Text) : Program Machine Error Unit := do
  let h ← get
  if FileTree.isDir (locate dest) h.files then throw (.fs dest "Is a directory".toList)
  else match os.removeFile dest with
    | some reason => throw (.fs dest reason)
    | none => modify fun h => { h with files := FileTree.unlink (locate dest) h.files }

/-- Put a blob's bytes at a path, by whatever link the system grants; where it refuses, what
it left stays. -/
def linkBlob (bytes : Bytes) (dest : Text) : Program Machine Error LinkKind :=
  match os.link dest with
  | .ok kind => do
    modify fun h => { h with files := FileTree.write (locate dest) bytes h.files }
    pure kind
  | .error (reason, left) => do
    match left with
    | some part =>
      modify fun h => { h with files := FileTree.write (locate dest) part h.files }
    | none => pure ()
    throw (.fs dest reason)

/-- Materialize an install view at `dest` pointing at the blob's content; the blob must be
in the cache, and the directories above are created. -/
def materialize (blake3 dest : Text) : Program Machine Error LinkKind := do
  let key ← ofExcept (Cas.blobPath blake3)
  let h ← get
  match h.disk.cache.blobs key with
  | none => throw (.other ("blob ".toList ++ blake3 ++ " not present in cache".toList))
  | some bytes =>
    if blocked (locate dest) h then throw (.fs (parentPath dest) "Not a directory".toList)
    else match os.createDirAll dest with
      | some reason => throw (.fs (parentPath dest) reason)
      | none => do
        whenever (occupied (locate dest) h) (clearDest locate os dest)
        linkBlob locate os bytes dest

/-- The key of an artifact's content: the declared BLAKE3 if the store has it,
else what the index has under the SHA-256, else under the git OID. -/
def contentKey (c : Cache) (artifact : Artifact) : Option Text :=
  if artifact.hashes.hasBlake3 && Cas.hasBlob c artifact.hashes.blake3 then
    some artifact.hashes.blake3
  else
    (if artifact.hashes.hasSha256 then Db.blake3ForSha256 artifact.hashes.sha256 c.rows
      else none) <|>
    (if artifact.hashes.hasGitBlobSha1 then
      Db.blake3ForGitSha1 artifact.hashes.gitBlobSha1 c.rows
      else none)

/-- A new row, and the destination it names, appended to the two tables. -/
def recordInstall (dest blake3 : Text) (h : Machine) : Machine :=
  { h with disk := { h.disk with
      installs := h.disk.installs ++ [⟨dest, blake3⟩]
      dests := h.disk.dests ++ [dest] } }

/-- Materialize the view of one artifact, whose path is checked first and whose blob must be
in the cache. -/
def installArtifact (targetDir : Text) (artifact : Artifact) :
    Program Machine Error InstallView := do
  ofExcept (validateArtifactPath artifact.path)
  let h ← get
  match contentKey h.disk.cache artifact with
  | none => throw (.other ("artifact `".toList ++ artifact.path ++
      "` not in cache; download it first".toList))
  | some blake3 =>
    let dest := joinDest targetDir artifact.path
    let kind ← materialize locate os blake3 dest
    modify (recordInstall dest blake3)
    pure ⟨artifact.path, dest, kind⟩

/-- Materialize the views of some artifacts, one after another; the first failure ends the
loop, and the views before it stay. -/
def installArtifacts (targetDir : Text) : List Artifact → Program Machine Error (List InstallView)
  | [] => pure []
  | artifact :: rest => do
    let view ← installArtifact locate os targetDir artifact
    let views ← installArtifacts targetDir rest
    pure (view :: views)

/-- Materialize install views for all of a manifest's cached artifacts into
`targetDir`. -/
def materializeInstall (manifestId targetDir : Text) :
    Program Machine Error (List InstallView) := do
  let h ← get
  let m ← ofExcept (requireManifest manifestId h.disk)
  installArtifacts locate os targetDir m.artifacts

/-! ## Eviction -/

/-- Remove what is at the destination of a view, file or directory. -/
def removeInstallDest (dest : Text) : Program Machine Error Unit := do
  let h ← get
  match os.symlinkMetadata dest with
  | some reason => throw (.fs dest reason)
  | none =>
    if FileTree.isDir (locate dest) h.files then
      match os.removeDirAll dest with
      | some (reason, gone) => do
        modify fun h => { h with files := FileTree.removeBelow (locate dest) gone h.files }
        throw (.fs dest reason)
      | none => modify fun h => { h with files := FileTree.removeTree (locate dest) h.files }
    else if (FileTree.contentAt (locate dest) h.files).isSome then
      match os.removeFile dest with
      | some reason => throw (.fs dest reason)
      | none => modify fun h => { h with files := FileTree.unlink (locate dest) h.files }
    else pure ()

/-- Remove the rows that point at a destination path; the destination is also forgotten as
one of those that are known, and no file is touched. -/
def deleteInstallByDest (dest : Text) (h : Machine) : Machine :=
  { h with disk := { h.disk with
      installs := h.disk.installs.filter fun i => i.destPath ≠ dest
      dests := h.disk.dests.filter fun d => d ≠ dest } }

/-- Remove a view: what is at its destination, and the rows that name it. -/
def dropView (dest : Text) : Program Machine Error Unit := do
  removeInstallDest locate os dest
  modify (deleteInstallByDest dest)

/-- The destinations of the views of a blob, newest first, which is the order in which the
database lists them for an eviction. -/
def viewsOf (installs : List InstallRow) (blake3 : Text) : List Text :=
  (installs.reverse.filter fun i => i.blake3 = blake3).map InstallRow.destPath

/-- Evict one blob: its install views go, then its files, then its row. -/
def evictOne (installs : List InstallRow) (blake3 : Text) : Program Machine Error Unit := do
  (viewsOf installs blake3).forM (dropView locate os)
  onDisk (Atlas.evictOne [] blake3)

/-- Remove cached blobs by policy; returns what was removed: each victim's views are removed
before its blob, and the first failure ends the call. -/
def evictCache (policy : EvictPolicy) : Program Machine Error (List Text) := do
  let h ← get
  (evicted policy h.disk).forM (evictOne locate os h.disk.installs)
  pure (evicted policy h.disk)

end Machine

end Atlas
