import Mathlib.Logic.Function.Basic
import Atlas.Program
import Atlas.SparseFile
import Atlas.Transport

/-!
# The store

What survives the process: the content-addressed blobs with their sidecars,
the database tables the download path reads and writes, and the partial files
under `tmp/`. Blob files are named by the *lower-case* BLAKE3 they are asked
for by, while the tables compare their keys as they are written; both are kept
as the code has them.

Two things here are not in the program. The cells of a partial file remember
which source wrote them, and the store keeps a trace of what the transfers
did. Nothing reads either: they are there for statements about who delivered
what.
-/

namespace Atlas

open Text

/-! ## Tables and files -/

/-- A byte of a partial file, and the source whose stream delivered it; a hole
of a pre-sized file reads as zero and was delivered by nobody. -/
structure Cell where
  byte : UInt8
  writer : Option Text
  deriving DecidableEq, Repr

/-- The cell of a pre-sized file that nobody wrote: it is zero, and no source is to be held
responsible for it. -/
def Cell.hole : Cell := ⟨0, none⟩

/-- Bytes as the cells a source writes, each marked with it. -/
def cellsBy (sourceId : Text) (data : Bytes) : List Cell :=
  data.map fun b => ⟨b, some sourceId⟩

/-- The bytes of a file, whoever wrote them. -/
def bytesOf (cells : List Cell) : Bytes := cells.map Cell.byte

/-- Sidecar metadata stored next to each committed blob, from which its row can be made again. -/
structure BlobMeta where
  blake3 : Text
  sha256 : Text
  sizeBytes : ℕ
  deriving DecidableEq, Repr

/-- A row of `cache_blobs`, the index in which the store's blobs are looked up. -/
structure CacheBlob where
  /-- The primary key. -/
  blake3 : Text
  sha256 : Text
  sizeBytes : ℕ
  gitBlobSha1 : Option Text
  deriving DecidableEq, Repr

/-- A row of `install_views`: a place outside the store where a blob's content was put. -/
structure InstallRow where
  destPath : Text
  blake3 : Text
  deriving DecidableEq, Repr

/-- A row of `downloads`, of a transfer that has begun and whose progress is kept. -/
structure DownloadRow where
  downloadId : Text
  manifestId : Text
  artifactPath : Text
  state : Text
  bytesTotal : ℕ
  bytesDone : ℕ
  /-- Who wrote the partial. -/
  sourceId : Option Text
  deriving DecidableEq, Repr

/-- A row of `source_health`, which holds what is known of a source and its ban. -/
structure SourceHealth where
  sourceId : Text
  successCount : ℕ
  failureCount : ℕ
  integrityFailures : ℕ
  banned : Bool
  bannedAt : Option ℕ
  deriving DecidableEq, Repr

/-- A row of `quarantine_records`, with the file that was moved: whose it was, why it was
moved and what was in it. -/
structure QuarantineRecord where
  downloadId : Text
  artifactPath : Text
  sourceId : Option Text
  reason : Text
  cells : Option (List Cell)
  deriving DecidableEq, Repr

/-- What the trace remembers of the transfers; the code keeps no such record, and no
decision depends on it. -/
inductive Event where
  /-- An attempt at a source found a partial it means to resume. -/
  | resumed (sourceId : Text) (cells : List Cell)
  /-- A stream was opened: whom the downloads row named as the writer of the
  partial, what is kept of the partial, the declared size, and what the stream
  meets. -/
  | opened (sourceId : Text) (rowOwner : Option Text) (kept : List Cell) (total : ℕ)
    (opening : Opening)
  /-- A source's stream yielded bytes, at this offset of the file. -/
  | delivered (sourceId : Text) (offset : ℕ) (data : Bytes)
  /-- An integrity failure was recorded against a source; the partial it left. -/
  | blamed (sourceId : Text) (cells : List Cell)

/-- The content-addressed store and its index: files under their BLAKE3, and the table of rows. -/
structure Cache where
  /-- Blob files, by lower-case BLAKE3. -/
  blobs : Text → Option Bytes
  /-- Sidecars, by lower-case BLAKE3. -/
  metas : Text → Option BlobMeta
  /-- Chunk trees, by lower-case BLAKE3. -/
  trees : Text → Option ChunkTree
  /-- The `cache_blobs` table, oldest row first. -/
  rows : List CacheBlob

/-- Everything that survives the process: the store, the tables, the partial files and the
trace. -/
structure Disk where
  cache : Cache
  manifests : List Manifest
  installs : List InstallRow
  /-- The install destinations that exist. -/
  dests : List Text
  /-- The partial files under `tmp/`, by name. -/
  temps : Text → Option (List Cell)
  downloads : List DownloadRow
  sourceHealth : List SourceHealth
  quarantine : List QuarantineRecord
  trace : List Event

/-- A fresh installation, with every table and every directory empty. -/
def Disk.empty : Disk where
  cache := ⟨fun _ => none, fun _ => none, fun _ => none, []⟩
  manifests := []
  installs := []
  dests := []
  temps := fun _ => none
  downloads := []
  sourceHealth := []
  quarantine := []
  trace := []

namespace Disk

/-- Note something in the trace, at its end. -/
def note (e : Event) (d : Disk) : Disk := { d with trace := d.trace ++ [e] }

/-- Replace, create or delete a partial file, by its name. -/
def setTemp (temp : Text) (file : Option (List Cell)) (d : Disk) : Disk :=
  { d with temps := Function.update d.temps temp file }

/-- The length of a partial file, 0 when there is none, in bytes, which is where an attempt
that resumes goes on. -/
def tempLen (d : Disk) (temp : Text) : ℕ := ((d.temps temp).map List.length).getD 0

@[simp] theorem setTemp_temps_self (temp : Text) (file : Option (List Cell)) (d : Disk) :
    (d.setTemp temp file).temps temp = file :=
  Function.update_self _ _ _

end Disk

/-! ## The content-addressed store -/

namespace Cas

/-- The name of a blob's file, the lower-case BLAKE3, which must be hexadecimal and long
enough to be split into directories. -/
def blobPath (blake3 : Text) : Except Error Text :=
  if blake3.utf8Len < 4 ∨ !blake3.all isAsciiHexdigit then
    .error (.other ("invalid blake3 key `".toList ++ blake3 ++ "`".toList))
  else .ok blake3.toAsciiLowercase

/-- Whether the store has a blob; one whose key is malformed it does not have. -/
def hasBlob (c : Cache) (blake3 : Text) : Bool :=
  match blobPath blake3 with
  | .ok key => (c.blobs key).isSome
  | .error _ => false

/-- The sidecar of a blob, if there is one; a key that names no file is an error, and not a
missing sidecar. -/
def blobMeta (c : Cache) (blake3 : Text) : Except Error (Option BlobMeta) :=
  match blobPath blake3 with
  | .ok key => .ok (c.metas key)
  | .error e => .error e

/-- The chunk tree of a blob, if there is one; the key is not checked here, only brought to
lower case. -/
def loadChunkTree (c : Cache) (blake3 : Text) : Option ChunkTree :=
  c.trees blake3.toAsciiLowercase

/-- Keep a chunk tree for a blob, in place of one it had. -/
def storeChunkTree (blake3 : Text) (tree : ChunkTree) (c : Cache) : Cache :=
  { c with trees := Function.update c.trees blake3.toAsciiLowercase (some tree) }

/-- Write a sidecar next to the blob file `key`; an earlier sidecar of the blob is replaced
as a whole. -/
def writeMeta (key : Text) (m : BlobMeta) (c : Cache) : Cache :=
  { c with metas := Function.update c.metas key (some m) }

/-- Put a file at the content-addressed path `key`, in place of what is there. -/
def publish (key : Text) (file : Bytes) (c : Cache) : Cache :=
  { c with blobs := Function.update c.blobs key (some file) }

@[simp] theorem writeMeta_blobs (key : Text) (m : BlobMeta) (c : Cache) :
    (writeMeta key m c).blobs = c.blobs := rfl

@[simp] theorem writeMeta_metas_self (key : Text) (m : BlobMeta) (c : Cache) :
    (writeMeta key m c).metas key = some m :=
  Function.update_self _ _ _

theorem writeMeta_metas_of_ne {key key' : Text} (h : key' ≠ key) (m : BlobMeta)
    (c : Cache) : (writeMeta key m c).metas key' = c.metas key' :=
  Function.update_of_ne h _ _

@[simp] theorem publish_metas (key : Text) (file : Bytes) (c : Cache) :
    (publish key file c).metas = c.metas := rfl

@[simp] theorem publish_blobs_self (key : Text) (file : Bytes) (c : Cache) :
    (publish key file c).blobs key = some file :=
  Function.update_self _ _ _

theorem publish_blobs_of_ne {key key' : Text} (h : key' ≠ key) (file : Bytes)
    (c : Cache) : (publish key file c).blobs key' = c.blobs key' :=
  Function.update_of_ne h _ _

/-- The name of the temp file of an in-flight download under `tmp/`. -/
def newTempPath (downloadId suffix : Text) : Text :=
  downloadId ++ ".".toList ++ suffix ++ ".part".toList

/-- Delete a blob and its sidecars, or fail where the text names no blob. -/
def removeBlob (blake3 : Text) (c : Cache) : Except Error Cache :=
  match blobPath blake3 with
  | .error e => .error e
  | .ok key => .ok { c with
      blobs := Function.update c.blobs key none
      metas := Function.update c.metas key none
      trees := Function.update c.trees key none }

/-- Commit a finished, *already verified* temp file into the store. If the
blob already exists, the temp file is removed and the existing metadata is
returned (this is the dedup path). -/
def commitBlob (temp : Text) (hashes : Hashes) (size : ℕ) :
    Program Disk Error BlobMeta := do
  let key ← Program.ofExcept (blobPath hashes.blake3)
  let d ← Program.get
  let m : BlobMeta := ⟨hashes.blake3, hashes.sha256, size⟩
  match d.cache.blobs key with
  | some _ =>
    Program.modify (Disk.setTemp temp none)
    match d.cache.metas key with
    | some existing => pure existing
    | none =>
      Program.modify fun d => { d with cache := writeMeta key m d.cache }
      pure m
  | none =>
    match d.temps temp with
    | none => Program.throw (.fs temp "No such file or directory".toList)
    | some cells =>
      Program.modify fun d =>
        { d.setTemp temp none with
          cache := writeMeta key m (publish key (bytesOf cells) d.cache) }
      pure m

/-- Import an existing on-disk file into the store by copying it into `tmp/`
and committing under the given (already computed) hashes. The copy is of a
local file, delivered by no source. -/
def importFile (file : Bytes) (hashes : Hashes) (size : ℕ) :
    Program Disk Error BlobMeta := do
  let d ← Program.get
  if hasBlob d.cache hashes.blake3 then
    let m : BlobMeta := ⟨hashes.blake3, hashes.sha256, size⟩
    let key ← Program.ofExcept (blobPath m.blake3)
    Program.modify fun d => { d with cache := writeMeta key m d.cache }
    pure m
  else
    let temp := newTempPath "import".toList (hashes.blake3.take 8)
    Program.modify (Disk.setTemp temp (some (file.map fun b => ⟨b, none⟩)))
    commitBlob temp hashes size

/-- Move a partial file into quarantine rather than deleting it; the result is what was
moved, or nothing when there was no partial. -/
def quarantine (temp : Text) : Program Disk Error (Option (List Cell)) := do
  let d ← Program.get
  Program.modify (Disk.setTemp temp none)
  pure (d.temps temp)

end Cas

/-! ## The database -/

namespace Db

/-- On re-upsert, never clobber a known sha256/size with an empty/zero one.
Sizes are stored as signed 64-bit integers. -/
def updateRow (m : BlobMeta) (row : CacheBlob) : CacheBlob :=
  { row with
    sha256 := if m.sha256 ≠ [] then m.sha256 else row.sha256
    sizeBytes :=
      if 0 < m.sizeBytes ∧ m.sizeBytes < 2 ^ 63 then m.sizeBytes else row.sizeBytes }

/-- `INSERT … ON CONFLICT(blake3) DO UPDATE`: the row of that key is updated in
place, or a row is added. -/
def upsertCacheBlob (m : BlobMeta) (rows : List CacheBlob) : List CacheBlob :=
  if rows.any (fun row => row.blake3 = m.blake3) then
    rows.map fun row => if row.blake3 = m.blake3 then updateRow m row else row
  else rows ++ [⟨m.blake3, m.sha256, m.sizeBytes, none⟩]

/-- Resolve a known blake3 for a sha256, if we've cached that content before. -/
def blake3ForSha256 (sha256 : Text) (rows : List CacheBlob) : Option Text :=
  (rows.find? fun row => row.sha256 = sha256).map CacheBlob.blake3

/-- Record the git blob OID a blob was verified against; no other row is touched, and a
missing row is not created. -/
def setCacheBlobGitSha1 (blake3 gitBlobSha1 : Text) (rows : List CacheBlob) :
    List CacheBlob :=
  rows.map fun row =>
    if row.blake3 = blake3 then { row with gitBlobSha1 := some gitBlobSha1 } else row

/-- The key of a blob that has a git object id on record. -/
def blake3ForGitSha1 (gitBlobSha1 : Text) (rows : List CacheBlob) : Option Text :=
  (rows.find? fun row => row.gitBlobSha1 = some gitBlobSha1).map CacheBlob.blake3

/-- Forget a blob: its row goes, by the primary key. -/
def deleteCacheBlob (blake3 : Text) (rows : List CacheBlob) : List CacheBlob :=
  rows.filter fun row => row.blake3 ≠ blake3

/-- A new row starts with nothing done and no writer; an old one keeps both. -/
def upsertDownload (downloadId manifestId artifactPath state : Text) (bytesTotal : ℕ)
    (rows : List DownloadRow) : List DownloadRow :=
  if rows.any (fun row => row.downloadId = downloadId) then
    rows.map fun row =>
      if row.downloadId = downloadId then
        { row with state := state, bytesTotal := bytesTotal }
      else row
  else rows ++ [⟨downloadId, manifestId, artifactPath, state, bytesTotal, 0, none⟩]

/-- Write down how far a download is, and from which source it was fetched last. -/
def updateDownloadProgress (downloadId : Text) (bytesDone : ℕ) (sourceId : Option Text)
    (rows : List DownloadRow) : List DownloadRow :=
  rows.map fun row =>
    if row.downloadId = downloadId then
      { row with bytesDone := bytesDone, sourceId := sourceId }
    else row

/-- Write down the state of a download, where it has a row. -/
def setDownloadState (downloadId state : Text) (rows : List DownloadRow) :
    List DownloadRow :=
  rows.map fun row =>
    if row.downloadId = downloadId then { row with state := state } else row

/-- Forget a download: its row goes, by its id. -/
def deleteDownload (downloadId : Text) (rows : List DownloadRow) : List DownloadRow :=
  rows.filter fun row => row.downloadId ≠ downloadId

/-- The row of a download, or nothing where it has none. -/
def getDownload (downloadId : Text) (rows : List DownloadRow) : Option DownloadRow :=
  rows.find? fun row => row.downloadId = downloadId

/-- The health of a source; one that is not on record has neither failed nor succeeded. -/
def getSourceHealth (sourceId : Text) (rows : List SourceHealth) : SourceHealth :=
  (rows.find? fun row => row.sourceId = sourceId).getD ⟨sourceId, 0, 0, 0, false, none⟩

/-- A success clears any ban, an integrity failure (re-)stamps the ban time,
an ordinary failure leaves it untouched. -/
def updateHealth (success integrityFailure : Bool) (now : ℕ) (row : SourceHealth) :
    SourceHealth :=
  { row with
    successCount := row.successCount + success.toNat
    failureCount := row.failureCount + (!success).toNat
    integrityFailures := row.integrityFailures + integrityFailure.toNat
    banned := if success then false else row.banned || integrityFailure
    bannedAt := if success then none else if integrityFailure then some now else row.bannedAt }

/-- A fresh row is banned by an integrity failure; plain success or failure
does not ban it. -/
def recordSourceResult (sourceId : Text) (success integrityFailure : Bool) (now : ℕ)
    (rows : List SourceHealth) : List SourceHealth :=
  if rows.any (fun row => row.sourceId = sourceId) then
    rows.map fun row =>
      if row.sourceId = sourceId then updateHealth success integrityFailure now row else row
  else
    rows ++ [{
      sourceId := sourceId
      successCount := success.toNat
      failureCount := (!success).toNat
      integrityFailures := integrityFailure.toNat
      banned := !success && integrityFailure
      bannedAt := if !success && integrityFailure then some now else none }]

end Db

/-- How long a ban excludes a source, in hours; after them the source is eligible again,
with its failures still on record. -/
def BAN_COOLDOWN_HOURS : ℕ := 6

/-- A ban is a cooldown: it excludes the source for some hours after the
failure it was stamped at. A ban without a time is treated as still active. -/
def banActive (now : ℕ) (h : SourceHealth) : Bool :=
  h.banned && match h.bannedAt with
    | none => true
    | some since => decide ((now : ℤ) - since < BAN_COOLDOWN_HOURS * 3600)

end Atlas
