import Atlas.Segmented

/-!
# The engine

`trySource` fetches an artifact from one source, with transient retry and
resume; `downloadArtifact` finds the artifact in the cache or goes through the
sources of a plan until one supplies it; the imports, eviction and
reconciliation are the other operations that write the store. `Op` is one of
these operations together with everything it meets, and `runOps` runs them in
sequence.

The plan is an argument: which sources are eligible and in what order is the
planner's business and nothing here depends on it.
-/

namespace Atlas

open Text Program

variable (D : Digests)

/-! ## One source -/

/-- What trying one source meets: the lookups before it, the settings it runs under, and
each attempt in turn. -/
structure SourceRun where
  /-- Looking up the adapter and the credential. -/
  preflight : Except AdapterError Unit
  /-- Connections allowed per download. -/
  connections : ℕ
  /-- Whether a speed cap is set. -/
  rateLimited : Bool
  /-- Whether Pause or Stop was pressed by the time the transfer is chosen. -/
  cancelled : Bool
  segmented : SegmentedRun
  attempts : ℕ → Attempt

/-- Poisoned bytes: move the partial into quarantine rather than deleting it,
and record what it was and whose. -/
def quarantineTemp (t : Target) (e : Error) : Program Disk Error Unit := do
  modify fun d => d.note (.blamed t.sourceId ((d.temps t.temp).getD []))
  let cells ← Cas.quarantine t.temp
  modify fun d => { d with
    quarantine := d.quarantine ++
      [⟨t.downloadId, t.artifact.path, some t.sourceId, e.display, cells⟩] }

/-- Record a failure of a source. Verifier failures and transport integrity
errors both mean that this source served bad bytes. -/
def recordFailure (t : Target) (e : Error) (now : ℕ) : Program Disk Error Unit := do
  modify (recordResult t.sourceId false e.blames now)
  whenever e.blames (quarantineTemp t e)

/-- The stream attempts at one source, `retries` of them after a transient
failure. A user cancel is not a source failure. -/
def attemptLoop (t : Target) (run : SourceRun) : ℕ → ℕ → Program Disk Error BlobMeta
  | retries, n => do
    let r ← result (streamOnce D t (run.attempts n))
    match r with
    | .ok m => pure m
    | .error e =>
      if e = .cancelled then throw e
      else do
        recordFailure t e (run.attempts n).now
        match retries with
        | 0 => throw e
        | retries + 1 => if e.isRetriable then attemptLoop t run retries (n + 1) else throw e

/-- Whether a source's bytes are fetched over several connections: a large
file, a range-capable source, no speed cap and nothing to resume. -/
def segmentable (t : Target) (run : SourceRun) (d : Disk) : Bool :=
  1 < run.connections && 2 * SEGMENT_MIN_BYTES ≤ t.total && !run.rateLimited &&
    httpRangeClass t.source.sourceClass && !run.cancelled && d.tempLen t.temp = 0

/-- Attempt to fetch an artifact from a single source. A segmented transfer
that fails otherwise than by the user falls back to a single stream. -/
def trySource (maxAttempts : ℕ) (t : Target) (run : SourceRun) :
    Program Disk Error BlobMeta :=
  match run.preflight with
  | .error e => throw e.error
  | .ok () => do
    let d ← get
    if segmentable t run d then do
      let r ← result (streamSegmented D t run.connections run.segmented)
      match r with
      | .ok m => pure m
      | .error e =>
        if e = .cancelled then throw e
        else do
          modify (truncateTo t.temp 0)
          attemptLoop D t run (maxAttempts - 1) 0
    else attemptLoop D t run (maxAttempts - 1) 0

/-! ## One artifact -/

/-- What a download reports about an artifact: its blob, its size, and where the bytes came
from. -/
structure ArtifactOutcome where
  artifactPath : Text
  blake3 : Text
  fromCache : Bool
  sourceId : Option Text
  sizeBytes : ℕ
  deriving DecidableEq, Repr

/-- One source of a plan, and what happens when its turn comes. -/
structure PlannedSource where
  source : Source
  /-- Whether Pause or Stop was pressed by then. -/
  cancelled : Bool
  /-- The clock of the ban check, in seconds. -/
  now : ℕ
  run : SourceRun

/-- What one call of `download_artifact` meets: whether it is stopped, and the sources of
its plan with what each sends. -/
structure DownloadRun where
  /-- Whether Pause or Stop was pressed before any download state is written. -/
  cancelled : Bool
  /-- Whether the user pressed Stop, which discards the partial, or Pause. -/
  discard : Bool
  /-- The sources of the plan, in order. -/
  plan : List PlannedSource
  /-- Why the plan is empty, if it is. -/
  excluded : Text
  /-- Whether the chunk-tree pass after the commit runs to its end. -/
  buildsTree : Bool

/-- The id of an artifact's download: eight bytes of a digest of the manifest id and the path. -/
def artifactDownloadId (manifestId path : Text) : Text :=
  hexEncode ((D.blake3 (manifestId ++ "::".toList ++ path).utf8).take 8)

/-- The first characters of a digest, for file names, twelve of them. -/
def short (s : Text) : Text := s.take 12

/-- What the cache has under the digests an artifact declares: by its BLAKE3 if the blob is
there, else by a row with its SHA-256 or git object id. -/
def cachedBlake3 (c : Cache) (artifact : Artifact) : Option Text :=
  if artifact.hashes.hasBlake3 && Cas.hasBlob c artifact.hashes.blake3 then
    some artifact.hashes.blake3
  else if artifact.hashes.hasSha256 then
    Db.blake3ForSha256 artifact.hashes.sha256 c.rows
  else if artifact.hashes.hasGitBlobSha1 then
    -- bundle sidecars: the git OID is their only declared digest
    Db.blake3ForGitSha1 artifact.hashes.gitBlobSha1 c.rows
  else none

/-- Load a cached chunk tree only if its Merkle root matches the signed root. -/
def cachedChunkTree (c : Cache) (artifact : Artifact) : Option ChunkTree :=
  match artifact.chunking with
  | none => none
  | some chunking =>
    match Cas.loadChunkTree c artifact.hashes.blake3 with
    | none => none
    | some tree =>
      if eqIgnoreAsciiCase (tree.rootHex D) chunking.leafB3MerkleRoot then some tree
      else none

/-- Index a committed blob: insert its row, or update the one under the same BLAKE3. -/
def upsertRow (m : BlobMeta) (c : Cache) : Cache :=
  { c with rows := Db.upsertCacheBlob m c.rows }

/-- Build and store the chunk tree of a blob that has none. -/
def buildChunkTree (artifact : Artifact) (blake3 : Text) (c : Cache) : Cache :=
  match Cas.loadChunkTree c blake3, (Cas.blobPath blake3).toOption.bind c.blobs with
  | none, some file =>
    let leafSize := (artifact.chunking.map Chunking.leafSize).getD DEFAULT_LEAF_SIZE
    Cas.storeChunkTree blake3 (ChunkTree.fromFile D file leafSize) c
  | _, _ => c

/-- After a successful commit: index the blob and build a chunk tree for future
streaming verification. -/
def finalizeBlob (artifact : Artifact) (m : BlobMeta) (buildsTree : Bool) (c : Cache) :
    Cache :=
  let c := upsertRow m c
  let c :=
    if artifact.hashes.hasGitBlobSha1 then
      { c with rows := Db.setCacheBlobGitSha1 m.blake3 artifact.hashes.gitBlobSha1 c.rows }
    else c
  if buildsTree then buildChunkTree D artifact m.blake3 c else c

/-- Finalize a user-interrupted artifact: a Pause keeps the partial and marks
the row `paused`, a Stop deletes both. -/
def finishCancelled (discard : Bool) (downloadId temp : Text) :
    Program Disk Error ArtifactOutcome :=
  if discard then do
    modify fun d => { d.setTemp temp none with
      downloads := Db.deleteDownload downloadId d.downloads }
    throw .stopped
  else do
    modify fun d => { d with
      downloads := Db.setDownloadState downloadId "paused".toList d.downloads }
    throw .cancelled

/-- Everything the source loop keeps from turn to turn, the same for every source it tries. -/
structure LoopContext where
  manifestId : Text
  artifact : Artifact
  downloadId : Text
  temp : Text
  chunkTree : Option ChunkTree
  maxAttempts : ℕ
  discard : Bool
  buildsTree : Bool

/-- What an attempt at a source of the plan is about: the artifact, the source, and where
its bytes go. -/
def LoopContext.target (ctx : LoopContext) (source : Source) : Target :=
  ⟨ctx.artifact, source, ctx.temp, ctx.downloadId, ctx.chunkTree⟩

/-- Go through the sources of the plan. `partialOwner` is who wrote the
surviving partial: without a chunk tree, resuming it under a different source
would misattribute any corruption, so it is emptied first. -/
def sourceLoop (ctx : LoopContext) : List PlannedSource → Option Text → Option Error →
    Program Disk Error ArtifactOutcome
  | [], _, lastErr => do
    modify fun d => { d with
      downloads := Db.setDownloadState ctx.downloadId "failed".toList d.downloads }
    throw (lastErr.getD (.noEligibleSource ctx.artifact.path))
  | planned :: rest, partialOwner, lastErr =>
    if planned.cancelled then finishCancelled ctx.discard ctx.downloadId ctx.temp
    else do
      let sourceId := planned.source.sourceId
      let d ← get
      -- another transfer may have banned this source after planning
      if banActive planned.now (Db.getSourceHealth sourceId d.sourceHealth) then
        sourceLoop ctx rest partialOwner lastErr
      else do
        whenever (ctx.chunkTree.isNone ∧ partialOwner.any (· ≠ sourceId)) <|
          modify (truncateTo ctx.temp 0)
        let r ← result (trySource D ctx.maxAttempts (ctx.target planned.source) planned.run)
        match r with
        | .ok m => do
          modify fun d => { d with
            downloads := Db.setDownloadState ctx.downloadId "complete".toList d.downloads
            cache := finalizeBlob D ctx.artifact m ctx.buildsTree d.cache }
          pure ⟨ctx.artifact.path, m.blake3, false, some sourceId, m.sizeBytes⟩
        | .error e =>
          if e = .cancelled then finishCancelled ctx.discard ctx.downloadId ctx.temp
          else do
            let d ← get
            sourceLoop ctx rest (if 0 < d.tempLen ctx.temp then some sourceId else none)
              (some e)

/-- Who wrote the partial an earlier call left, as far as the row on it says.
Without a chunk tree a partial of an unknown writer is emptied. -/
def adoptPartial (chunkTree : Option ChunkTree) (temp downloadId : Text) :
    Program Disk Error (Option Text) := do
  let d ← get
  let partialOwner :=
    if chunkTree.isNone && (d.temps temp).isSome then
      (Db.getDownload downloadId d.downloads).bind DownloadRow.sourceId
    else none
  whenever (chunkTree.isNone ∧ (d.temps temp).isSome ∧ partialOwner.isNone) <|
    modify (truncateTo temp 0)
  pure partialOwner

/-- Fetch from the sources of the plan, resuming the partial an earlier call
left when it is known who wrote it. -/
def transferArtifact (maxAttempts : ℕ) (manifestId : Text) (artifact : Artifact)
    (run : DownloadRun) : Program Disk Error ArtifactOutcome := do
  let downloadId := artifactDownloadId D manifestId artifact.path
  modify fun d => { d with
    downloads := Db.upsertDownload downloadId manifestId artifact.path "running".toList
      artifact.sizeBytes d.downloads }
  let d ← get
  let chunkTree := cachedChunkTree D d.cache artifact
  -- name the temp by whichever digest the manifest provides
  let key := if artifact.hashes.hasBlake3 then artifact.hashes.blake3
    else artifact.hashes.sha256
  let temp := Cas.newTempPath downloadId (short key)
  let partialOwner ← adoptPartial chunkTree temp downloadId
  sourceLoop D ⟨manifestId, artifact, downloadId, temp, chunkTree, maxAttempts, run.discard,
    run.buildsTree⟩ run.plan partialOwner none

/-- Make an artifact's bytes present in the store: from the cache, or from a
source of the plan. -/
def downloadArtifact (maxAttempts : ℕ) (manifestId : Text) (artifact : Artifact)
    (run : DownloadRun) : Program Disk Error ArtifactOutcome := do
  let d ← get
  match cachedBlake3 d.cache artifact with
  | some blake3 => do
    modify fun d => { d with
      cache := upsertRow ⟨blake3, artifact.hashes.sha256, artifact.sizeBytes⟩ d.cache }
    pure ⟨artifact.path, blake3, true, none, artifact.sizeBytes⟩
  | none =>
    if run.cancelled then throw (if run.discard then .stopped else .cancelled)
    else if run.plan.isEmpty then
      throw (.noEligibleSource (artifact.path ++ " (".toList ++ run.excluded ++ ")".toList))
    else transferArtifact D maxAttempts manifestId artifact run

/-! ## Imports -/

/-- Store a manifest that passes validation, in place of any of the same id. -/
def importManifest (m : Manifest) : Program Disk Error Unit :=
  match m.validate with
  | .error e => throw e
  | .ok () => modify fun d => { d with
      manifests := d.manifests.filter (fun m' => m'.manifestId ≠ m.manifestId) ++ [m] }

/-- The stored manifest of an id, or the error that there is none. -/
def requireManifest (manifestId : Text) (d : Disk) : Except Error Manifest :=
  match d.manifests.find? (fun m => m.manifestId = manifestId) with
  | some m => .ok m
  | none => .error (.manifestNotFound manifestId)

/-- Blob indexing for the import path: cache row and chunk tree, where the artifact asks for
a tree. -/
def indexBlob (artifact : Artifact) (m : BlobMeta) (c : Cache) : Cache :=
  buildChunkTree D artifact m.blake3 (upsertRow m c)

/-- Import a file already on disk as a manifest artifact, if it matches the
manifest's declared digests. -/
def importArtifactFile (manifestId artifactPath : Text) (file : Bytes) :
    Program Disk Error BlobMeta := do
  let d ← get
  let m ← ofExcept (requireManifest manifestId d)
  match m.artifact artifactPath with
  | none => throw (.artifactNotFound artifactPath)
  | some artifact =>
    let (hashes, size) := hashFile D file
    if size ≠ artifact.sizeBytes then
      throw (.sizeMismatch ("local import of ".toList ++ artifactPath) artifact.sizeBytes size)
    else match artifact.hashes.mismatchAgainst hashes with
      | some (label, expected, actual) =>
        throw (.hashMismatch ("local import of ".toList ++ artifactPath ++ " (".toList ++
          label ++ ")".toList) expected actual)
      | none => do
        let m ← Cas.importFile file hashes size
        modify fun d => { d with cache := indexBlob D artifact m d.cache }
        pure m

/-- The artifacts of a manifest, of which the first gets a file's own BLAKE3 if
it declares none. -/
def fillFirstBlake3 (blake3 : Text) : List Artifact → List Artifact
  | [] => []
  | art :: rest =>
    (if art.hashes.hasBlake3 then art
     else { art with hashes := { art.hashes with blake3 := blake3 } }) :: rest

/-- Import a local model file under a manifest found or synthesized for it. -/
def importLocalFile (file : Bytes) (manifest : Manifest) : Program Disk Error BlobMeta := do
  let (hashes, size) := hashFile D file
  let artifacts := fillFirstBlake3 hashes.blake3 manifest.artifacts
  importManifest { manifest with artifacts := artifacts }
  let m ← Cas.importFile file hashes size
  match artifacts with
  | [] => pure m
  | art :: _ =>
    modify fun d => { d with cache := indexBlob D art m d.cache }
    pure m

/-! ## Eviction and reconciliation -/

/-- Which blobs the user wants out of the cache, as the settings offer it. -/
inductive EvictPolicy where
  /-- Every cached blob. -/
  | all
  /-- One blob. -/
  | blob (blake3 : Text)
  /-- Every cached blob that no install view names. -/
  | unreferenced
  deriving DecidableEq, Repr

/-- The blobs a policy removes: all that have a row, one, or those no installed view refers to. -/
def evicted (policy : EvictPolicy) (d : Disk) : List Text :=
  match policy with
  | .all => d.cache.rows.map CacheBlob.blake3
  | .blob b => [b]
  | .unreferenced =>
    (d.cache.rows.map CacheBlob.blake3).filter fun b =>
      !(d.installs.map InstallRow.blake3).contains b

/-- Evict one blob: its install views go, then its files, then its row. -/
def evictOne (installs : List InstallRow) (blake3 : Text) : Program Disk Error Unit := do
  let dests := (installs.filter fun i => i.blake3 = blake3).map InstallRow.destPath
  modify fun d => { d with
    dests := d.dests.filter fun dest => !dests.contains dest
    installs := d.installs.filter fun i => !dests.contains i.destPath }
  let d ← get
  let _ ← ofExcept (Cas.blobMeta d.cache blake3)
  let cache ← ofExcept (Cas.removeBlob blake3 d.cache)
  modify fun d => { d with
    cache := { cache with rows := Db.deleteCacheBlob blake3 cache.rows } }

/-- Remove cached blobs by policy; returns what was removed; it stops at the first blob that
cannot be removed. -/
def evictCache (policy : EvictPolicy) : Program Disk Error (List Text) := do
  let d ← get
  (evicted policy d).forM (evictOne d.installs)
  pure (evicted policy d)

/-- Drop a cache row whose blob file is gone, with what is left beside it. -/
def reconcileRow (row : CacheBlob) (c : Cache) : Cache :=
  if Cas.hasBlob c row.blake3 then c
  else
    let c := match Cas.removeBlob row.blake3 c with
      | .ok c' => c'
      | .error _ => c
    { c with rows := Db.deleteCacheBlob row.blake3 c.rows }

/-- Whether a partial file belongs to a download: its name begins with the download's id and
a dot, and ends in `.part`. -/
def isTempOf (downloadId temp : Text) : Bool :=
  (downloadId ++ ".".toList).isPrefixOf temp && ".part".toList.isSuffixOf temp

/-- Reap one download row, unless it is live or still resumable; a `running`
row without a live task is really paused. -/
def reconcileDownload (live : List Text) (hasTemp : Text → Bool) (row : DownloadRow)
    (d : Disk) : Disk :=
  if row.state = "complete".toList ∨ live.contains row.manifestId then d
  else if d.manifests.any (fun m => m.manifestId = row.manifestId) ∧
      (hasTemp row.downloadId ∨ row.state = "paused".toList ∨ row.state = "running".toList)
  then
    if row.state = "running".toList then
      { d with downloads := Db.setDownloadState row.downloadId "paused".toList d.downloads }
    else d
  else { d with
    temps := fun temp => if isTempOf row.downloadId temp then none else d.temps temp
    downloads := Db.deleteDownload row.downloadId d.downloads }

/-- Bring the database in line with the files: rows whose blob or install is
gone, and downloads that cannot be resumed, are dropped. `live` are the
manifests with a live transfer, `hasTemp` says which downloads have a partial file. -/
def reconcile (live : List Text) (hasTemp : Text → Bool) (d : Disk) : Disk :=
  let d := { d with cache := d.cache.rows.foldl (fun c row => reconcileRow row c) d.cache }
  let d := { d with installs := d.installs.filter fun i => d.dests.contains i.destPath }
  d.downloads.foldl (fun d row => reconcileDownload live hasTemp row d) d

/-! ## Runs -/

/-- An operation of the engine, with everything it meets, so that runs are lists of
operations. -/
inductive Op where
  | importManifest (m : Manifest)
  | downloadArtifact (maxAttempts : ℕ) (manifestId : Text) (artifact : Artifact)
    (run : DownloadRun)
  | importArtifactFile (manifestId artifactPath : Text) (file : Bytes)
  | importLocalFile (file : Bytes) (manifest : Manifest)
  | evictCache (policy : EvictPolicy)
  | reconcile (live : List Text) (hasTemp : Text → Bool)

/-- The store an operation leaves, however it ends; what a failed one did before failing
stays done. -/
def Op.apply : Op → Disk → Disk
  | .importManifest m, d => (Atlas.importManifest m d).2
  | .downloadArtifact maxAttempts manifestId artifact run, d =>
    (Atlas.downloadArtifact D maxAttempts manifestId artifact run d).2
  | .importArtifactFile manifestId artifactPath file, d =>
    (Atlas.importArtifactFile D manifestId artifactPath file d).2
  | .importLocalFile file manifest, d => (Atlas.importLocalFile D file manifest d).2
  | .evictCache policy, d => (Atlas.evictCache policy d).2
  | .reconcile live hasTemp, d => Atlas.reconcile live hasTemp d

/-- The store after a sequence of operations, each begun in the store the one before left. -/
def runOps (ops : List Op) (d : Disk) : Disk := ops.foldl (fun d op => op.apply D d) d

end Atlas
