import Atlas.CrashFiles
import Atlas.VerifyPaths

/-!
# The store, step by step

The store as the files it is made of: a blob is published by a rename, and its sidecars, the
metadata and the chunk tree, are written in place after it. Every operation is the sequence
of steps on files and tables that it takes, and the process may die after any of them.

What a download does is cut down to what it leaves in the store: the bytes a source serves
are written to the partial and verified there, and how a partial is resumed is not part of
this. A sidecar is read back as it is, and a sidecar that cannot be read fails the operation
that reads it.
-/

namespace Atlas

open Text Program CrashFiles

/-! ## Files -/

/-- The files of a store, by the key or the name in their path. -/
inductive StoreFile where
  | blob (key : Text)
  | metaJson (key : Text)
  | chunkTree (key : Text)
  /-- A blob that is copied next to its place. -/
  | incoming (key : Text)
  /-- A file under `tmp/`. -/
  | temp (name : Text)
  deriving DecidableEq, Repr

/-- The tables that matter here: the index of blobs and the manifests imported. -/
structure StoreTables where
  /-- The `cache_blobs` table. -/
  rows : List CacheBlob
  manifests : List Manifest

/-- A store on disk: its files by name, with the tables beside them. -/
abbrev StoreVolume := Volume StoreFile StoreTables

/-- A program that works on a store in steps, between any two of which the process may die. -/
abbrev StoreSteps := Steps StoreFile StoreTables Error

/-- The JSON of a blob's metadata, with the time of the commit. -/
structure MetaCodec where
  encode : BlobMeta → Text → Bytes
  /-- The metadata, or why it cannot be read. -/
  decode : Bytes → Except Text BlobMeta

/-- What is encoded can be read back, for all metadata and at every time of writing. -/
def MetaCodec.Correct (C : MetaCodec) : Prop := ∀ m now, C.decode (C.encode m now) = .ok m

/-- A number as eight bytes, the lowest first, as the chunk tree's header stores its sizes. -/
def toLeBytes (n : ℕ) : Bytes := (List.range 8).map fun i => UInt8.ofNat (n >>> (8 * i))

/-- The number some bytes are, the lowest byte first, as the chunk tree's header is read. -/
def fromLeBytes (bytes : Bytes) : ℕ := bytes.foldr (fun b n => n * 256 + b.toNat) 0

/-- The lowest `k` bytes of a number are the number modulo `256 ^ k`. -/
theorem fromLeBytes_range (k n : ℕ) :
    fromLeBytes ((List.range k).map fun i => UInt8.ofNat (n >>> (8 * i))) = n % 256 ^ k := by
  induction k generalizing n with
  | zero => exact (Nat.mod_one n).symm
  | succ k ih =>
    have hrest : (fun i => UInt8.ofNat (n >>> (8 * i))) ∘ Nat.succ =
        fun i => UInt8.ofNat ((n / 256) >>> (8 * i)) := by
      funext i
      show UInt8.ofNat (n >>> (8 * (i + 1))) = UInt8.ofNat ((n / 256) >>> (8 * i))
      rw [Nat.mul_add, Nat.add_comm, Nat.shiftRight_add, Nat.shiftRight_eq_div_pow n]
    have hlowest : n % 256 ^ (k + 1) = n % 256 + 256 * (n / 256 % 256 ^ k) := by
      rw [Nat.pow_succ', Nat.mod_mul]
    rw [List.range_succ_eq_map, List.map_cons, List.map_map, hrest, hlowest, ← ih]
    show fromLeBytes _ * 256 + (UInt8.ofNat n).toNat = _
    rw [UInt8.toNat_ofNat', Nat.add_comm, Nat.mul_comm]

theorem fromLeBytes_toLeBytes {n : ℕ} (h : n < 2 ^ 64) : fromLeBytes (toLeBytes n) = n :=
  (fromLeBytes_range 8 n).trans (Nat.mod_eq_of_lt h)

namespace ChunkTree

/-- Serialize to a compact binary representation: the leaf size and the leaves. -/
def toBytes (tree : ChunkTree) : Bytes := toLeBytes tree.leafSize ++ tree.leaves.flatten

/-- Parse the binary representation: eight bytes of leaf size and then one digest of 32
bytes a leaf, with nothing left over. -/
def fromBytes (bytes : Bytes) : Except Error ChunkTree :=
  if bytes.length < 8 ∨ (bytes.length - 8) % 32 ≠ 0 then
    .error (.other "malformed chunk tree blob".toList)
  else .ok ⟨fromLeBytes (bytes.take 8),
    (List.range ((bytes.length - 8) / 32)).map fun i => (bytes.drop (8 + 32 * i)).take 32⟩

/-- Leaf hashes put one after the other can be taken apart again. -/
theorem leaves_of_flatten {leaves : List Bytes} (h : ∀ leaf ∈ leaves, leaf.length = 32) :
    (List.range leaves.length).map (fun i => (leaves.flatten.drop (32 * i)).take 32) = leaves := by
  induction leaves with
  | nil => rfl
  | cons leaf rest ih =>
    have hleaf := h leaf List.mem_cons_self
    have hnext (i : ℕ) : (leaf :: rest).flatten.drop (32 * (i + 1)) =
        rest.flatten.drop (32 * i) := by
      rw [List.flatten_cons, Nat.mul_succ, Nat.add_comm, ← List.drop_drop, ← hleaf,
        List.drop_left]
    rw [List.length_cons, List.range_succ_eq_map, List.map_cons, List.map_map]
    refine congrArg₂ List.cons ?_ ?_
    · rw [Nat.mul_zero, List.drop_zero, List.flatten_cons, ← hleaf, List.take_left]
    · refine Eq.trans (List.map_congr_left fun i _ => ?_)
        (ih fun leaf hmem => h leaf (List.mem_cons_of_mem _ hmem))
      show ((leaf :: rest).flatten.drop (32 * (i + 1))).take 32 = _
      rw [hnext]

/-- **A chunk tree that was written whole is read back as it is.** -/
theorem fromBytes_toBytes {tree : ChunkTree} (hsize : tree.leafSize < 2 ^ 64)
    (hleaves : ∀ leaf ∈ tree.leaves, leaf.length = 32) :
    fromBytes tree.toBytes = .ok tree := by
  have hhead : (toLeBytes tree.leafSize).length = 8 := by
    unfold toLeBytes
    rw [List.length_map, List.length_range]
  have hflat : tree.leaves.flatten.length = 32 * tree.leaves.length := by
    rw [List.length_flatten, List.map_congr_left hleaves, List.map_const', List.sum_replicate_nat,
      Nat.mul_comm]
  have hlen : tree.toBytes.length = 8 + 32 * tree.leaves.length := by
    unfold toBytes
    rw [List.length_append, hhead, hflat]
  have htake : tree.toBytes.take 8 = toLeBytes tree.leafSize := by
    unfold toBytes
    rw [← hhead, List.take_left]
  have hdrop (i : ℕ) : tree.toBytes.drop (8 + 32 * i) = tree.leaves.flatten.drop (32 * i) := by
    unfold toBytes
    rw [← List.drop_drop, ← hhead, List.drop_left]
  unfold fromBytes
  rw [if_neg (by omega), htake, fromLeBytes_toLeBytes hsize]
  have hcount : (tree.toBytes.length - 8) / 32 = tree.leaves.length := by omega
  rw [hcount]
  simp only [hdrop]
  rw [leaves_of_flatten hleaves]

/-- The hashes of a tree are as long as the hash function's. -/
theorem length_of_mem_leaves {D : Digests} (hD : ∀ data, (D.blake3 data).length = 32)
    {file : Bytes} {leafSize : ℕ} {leaf : Bytes} (h : leaf ∈ (fromFile D file leafSize).leaves) :
    leaf.length = 32 := by
  obtain ⟨i, hi⟩ := List.mem_iff_getElem?.mp h
  have hpos : 0 < max 1 (min leafSize MAX_LEAF_SIZE) :=
    Nat.lt_of_lt_of_le Nat.one_pos (Nat.le_max_left _ _)
  have hleaf : (leavesOf D (max 1 (min leafSize MAX_LEAF_SIZE)) hpos file)[i]? = some leaf := hi
  rw [leavesOf_getElem?] at hleaf
  split at hleaf
  · rw [← Option.some.inj hleaf]
    exact hD _
  · cases hleaf

/-- **The tree of a file is read back as it is.** -/
theorem fromBytes_fromFile {D : Digests} (hD : ∀ data, (D.blake3 data).length = 32)
    (file : Bytes) (leafSize : ℕ) :
    fromBytes (fromFile D file leafSize).toBytes = .ok (fromFile D file leafSize) := by
  refine fromBytes_toBytes ?_ fun leaf => length_of_mem_leaves hD
  have hle : (fromFile D file leafSize).leafSize ≤ MAX_LEAF_SIZE :=
    Nat.max_le.mpr ⟨by decide, Nat.min_le_right _ _⟩
  exact Nat.lt_of_le_of_lt hle (by decide)

end ChunkTree

/-! ## The content-addressed store -/

/-- What an operation meets of the world: the time, what the file system can do, and whether
the user has stopped it. -/
structure StoreEnv where
  now : Text
  /-- The file system clones files. -/
  reflinks : Bool
  /-- What is under `tmp/` can be renamed into the store. -/
  renames : Bool
  /-- Pause or Stop was pressed by the time a download is committed. -/
  cancelled : Bool
  deriving DecidableEq, Repr

namespace Crashing

variable (D : Digests) (C : MetaCodec) (env : StoreEnv)

/-- Write the sidecar of a blob, which has its key for a name. -/
def writeMeta (m : BlobMeta) : StoreSteps Unit := do
  let key ← ofExcept (Cas.blobPath m.blake3)
  writeFile (.metaJson key) (C.encode m env.now)

/-- Read the sidecar of a blob; without a file there is none, and one that does not parse is
an error. -/
def blobMeta (blake3 : Text) : StoreSteps (Option BlobMeta) := do
  let key ← ofExcept (Cas.blobPath blake3)
  let v ← look
  match v.files (.metaJson key) with
  | none => pure none
  | some bytes =>
    match C.decode bytes with
    | .ok m => pure (some m)
    | .error message => throw (.json message)

/-- Publish a temp file: rename it, or copy it next to its place and rename the copy, so
that a crash never leaves a truncated blob at the content-addressed path. -/
def publish (temp key : Text) (file : Bytes) : StoreSteps Unit :=
  if env.renames then rename (.temp temp) (.blob key)
  else do
    writeFile (.incoming key) file
    rename (.incoming key) (.blob key)
    remove (.temp temp)

/-- Commit a finished, *already verified* temp file into the store. -/
def commitBlob (temp : Text) (hashes : Hashes) (size : ℕ) : StoreSteps BlobMeta := do
  let key ← ofExcept (Cas.blobPath hashes.blake3)
  let m : BlobMeta := ⟨hashes.blake3, hashes.sha256, size⟩
  let v ← look
  match v.files (.blob key) with
  | some _ => do
    remove (.temp temp)
    let existing ← blobMeta C hashes.blake3
    match existing with
    | some m' => pure m'
    | none => do
      writeMeta C env m
      pure m
  | none =>
    match v.files (.temp temp) with
    | none => throw (.fs (key ++ ".blob.incoming".toList) "No such file or directory".toList)
    | some file => do
      publish env temp key file
      writeMeta C env m
      pure m

/-- Clone a file in one step, or copy it in several where the file system cannot clone or a
file is in the way. -/
def reflinkOrCopy (name : StoreFile) (file : Bytes) : StoreSteps Unit := do
  let v ← look
  if env.reflinks && (v.files name).isNone then atomically (Volume.set name (some file))
  else writeFile name file

/-- What the engine reads of a store: blobs and tables as they are, and of the sidecars
those that can be parsed. -/
def view (v : StoreVolume) : Cache where
  blobs := fun key => v.files (.blob key)
  metas := fun key => (v.files (.metaJson key)).bind fun bytes => (C.decode bytes).toOption
  trees := fun key =>
    (v.files (.chunkTree key)).bind fun bytes => (ChunkTree.fromBytes bytes).toOption
  rows := v.tables.rows

/-- Import an existing on-disk file into the store by copying it into `tmp/` and committing
under the given (already computed) hashes. -/
def importFile (file : Bytes) (hashes : Hashes) (size : ℕ) : StoreSteps BlobMeta := do
  let v ← look
  let m : BlobMeta := ⟨hashes.blake3, hashes.sha256, size⟩
  if Cas.hasBlob (view C v) hashes.blake3 then do
    writeMeta C env m
    pure m
  else do
    let temp := Cas.newTempPath "import".toList (hashes.blake3.take 8)
    reflinkOrCopy env (.temp temp) file
    commitBlob C env temp hashes size

/-- Read the chunk tree of a blob; without a file there is none, and one that does not parse
is an error. -/
def loadChunkTree (blake3 : Text) : StoreSteps (Option ChunkTree) := do
  let v ← look
  match v.files (.chunkTree blake3.toAsciiLowercase) with
  | none => pure none
  | some bytes =>
    match ChunkTree.fromBytes bytes with
    | .ok tree => pure (some tree)
    | .error e => throw e

/-- Write the chunk tree of a blob, in place of the one that is there. -/
def storeChunkTree (blake3 : Text) (tree : ChunkTree) : StoreSteps Unit :=
  writeFile (.chunkTree blake3.toAsciiLowercase) tree.toBytes

/-- Delete the three files of a blob, one after another: its bytes, its sidecar and its
chunk tree. -/
def removeBlob (blake3 : Text) : StoreSteps Unit := do
  let key ← ofExcept (Cas.blobPath blake3)
  remove (.blob key)
  remove (.metaJson key)
  remove (.chunkTree key)

/-! ## The engine -/

/-- Change the index in one step, as a transaction of the database does. -/
def updateRows (f : List CacheBlob → List CacheBlob) : StoreSteps Unit :=
  atomically fun v => { v with tables := { v.tables with rows := f v.tables.rows } }

/-- Build and store the chunk tree of a blob that has none. -/
def ensureChunkTree (artifact : Artifact) (blake3 : Text) : StoreSteps Unit := do
  let tree ← loadChunkTree blake3
  match tree with
  | some _ => pure ()
  | none => do
    let v ← look
    match (Cas.blobPath blake3).toOption.bind fun key => v.files (.blob key) with
    | none => pure ()
    | some file =>
      let leafSize := (artifact.chunking.map Chunking.leafSize).getD DEFAULT_LEAF_SIZE
      storeChunkTree blake3 (ChunkTree.fromFile D file leafSize)

/-- After a successful commit: index the blob and build a chunk tree. -/
def finalizeBlob (artifact : Artifact) (m : BlobMeta) : StoreSteps Unit := do
  updateRows (Db.upsertCacheBlob m)
  whenever artifact.hashes.hasGitBlobSha1
    (updateRows (Db.setCacheBlobGitSha1 m.blake3 artifact.hashes.gitBlobSha1))
  if env.cancelled then pure () else ensureChunkTree D artifact m.blake3

/-- Blob indexing for the import path: the row first, and the chunk tree after it. -/
def indexBlob (artifact : Artifact) (m : BlobMeta) : StoreSteps Unit := do
  updateRows (Db.upsertCacheBlob m)
  ensureChunkTree D artifact m.blake3

/-- Load a cached chunk tree only if its Merkle root matches the signed root. -/
def cachedChunkTree (artifact : Artifact) : StoreSteps (Option ChunkTree) :=
  match artifact.chunking with
  | none => pure none
  | some chunking => do
    let tree ← loadChunkTree artifact.hashes.blake3
    match tree with
    | none => pure none
    | some tree =>
      pure (if eqIgnoreAsciiCase (tree.rootHex D) chunking.leafB3MerkleRoot then some tree
        else none)

/-- Make an artifact's bytes present in the store: from the cache, or from a source that
serves some content. Returns the BLAKE3 of the blob. -/
def downloadArtifact (manifestId : Text) (artifact : Artifact) (content : Bytes) :
    StoreSteps Text := do
  let v ← look
  match cachedBlake3 (view C v) artifact with
  | some blake3 => do
    updateRows (Db.upsertCacheBlob ⟨blake3, artifact.hashes.sha256, artifact.sizeBytes⟩)
    pure blake3
  | none => do
    let _ ← cachedChunkTree D artifact
    let key := if artifact.hashes.hasBlake3 then artifact.hashes.blake3
      else artifact.hashes.sha256
    let temp := Cas.newTempPath (artifactDownloadId D manifestId artifact.path) (short key)
    writeFile (.temp temp) content
    match verifyFile D content artifact.hashes artifact.sizeBytes artifact.path with
    | .error e => throw e
    | .ok hashes => do
      let m ← commitBlob C env temp hashes content.length
      finalizeBlob D env artifact m
      pure m.blake3

/-- Store a manifest, in place of any of the same id, after validating it. -/
def insertManifest (m : Manifest) : StoreSteps Unit :=
  match m.validate with
  | .error e => throw e
  | .ok () => atomically fun v => { v with
      tables := { v.tables with
        manifests :=
          v.tables.manifests.filter (fun m' => m'.manifestId ≠ m.manifestId) ++ [m] } }

/-- Import a file already on disk as a manifest artifact, if it matches the manifest's
declared digests. -/
def importArtifactFile (manifestId artifactPath : Text) (file : Bytes) :
    StoreSteps BlobMeta := do
  let v ← look
  match v.tables.manifests.find? (fun m => m.manifestId = manifestId) with
  | none => throw (.manifestNotFound manifestId)
  | some m =>
    match m.artifact artifactPath with
    | none => throw (.artifactNotFound artifactPath)
    | some artifact =>
      let (hashes, size) := hashFile D file
      if size ≠ artifact.sizeBytes then
        throw (.sizeMismatch ("local import of ".toList ++ artifactPath) artifact.sizeBytes size)
      else
        match artifact.hashes.mismatchAgainst hashes with
        | some (label, expected, actual) =>
          throw (.hashMismatch ("local import of ".toList ++ artifactPath ++ " (".toList ++
            label ++ ")".toList) expected actual)
        | none => do
          let m ← importFile C env file hashes size
          indexBlob D artifact m
          pure m

/-- Import a local model file under a manifest found or synthesized for it. -/
def importLocalFile (file : Bytes) (manifest : Manifest) : StoreSteps BlobMeta := do
  let (hashes, size) := hashFile D file
  let artifacts := fillFirstBlake3 hashes.blake3 manifest.artifacts
  insertManifest { manifest with artifacts := artifacts }
  let m ← importFile C env file hashes size
  match artifacts with
  | [] => pure m
  | art :: _ => do
    indexBlob D art m
    pure m

/-- Evict one blob: its metadata is read for the size freed, the files are removed, and then
the row. -/
def evict (blake3 : Text) : StoreSteps Unit := do
  let _ ← blobMeta C blake3
  removeBlob blake3
  updateRows (Db.deleteCacheBlob blake3)

end Crashing

/-! ## Histories -/

/-- An operation on the store, with what it meets, from the file's bytes to the manifest. -/
inductive StoreOp where
  | insertManifest (m : Manifest)
  | downloadArtifact (env : StoreEnv) (manifestId : Text) (artifact : Artifact)
    (content : Bytes)
  | importArtifactFile (env : StoreEnv) (manifestId artifactPath : Text) (file : Bytes)
  | importLocalFile (env : StoreEnv) (file : Bytes) (manifest : Manifest)
  | evict (blake3 : Text)

/-- The steps an operation takes, any prefix of which is what a crash leaves done. -/
def StoreOp.steps (D : Digests) (C : MetaCodec) : StoreOp → StoreSteps Unit
  | .insertManifest m => Crashing.insertManifest m
  | .downloadArtifact env manifestId artifact content => do
    let _ ← Crashing.downloadArtifact D C env manifestId artifact content
  | .importArtifactFile env manifestId artifactPath file => do
    let _ ← Crashing.importArtifactFile D C env manifestId artifactPath file
  | .importLocalFile env file manifest => do
    let _ ← Crashing.importLocalFile D C env file manifest
  | .evict blake3 => Crashing.evict C blake3

/-- An operation that is run, and after how many steps the process dies, if it does. -/
structure StoreEvent where
  op : StoreOp
  left : Option ℕ

namespace StoreVolume

/-- A fresh store, without files, rows or manifests. -/
def empty : StoreVolume := ⟨fun _ => none, ⟨[], []⟩⟩

/-- The store that an operation leaves, however it ends, with the crash where it happens. -/
def step (D : Digests) (C : MetaCodec) (v : StoreVolume) (e : StoreEvent) : StoreVolume :=
  (e.op.steps D C ⟨v, e.left⟩).2.volume

end StoreVolume

end Atlas
