import Atlas.CacheIndex

/-!
# What no operation undoes in the store

The engine writes its store in five ways: it publishes a blob, it writes a sidecar beside one,
it builds the chunk tree of one, it removes a blob with all that is kept beside it, and it
writes rows. What survives each of these survives every operation, whatever the operation
meets (`CacheInvariant.runOps`).

So it is for the chunk trees: a tree is in the store only beside its blob
(`runOps_treesBeside`). A transfer of a content that is named by its BLAKE3 therefore never
finds a tree, for with the blob in the store there is nothing to transfer
(`TreesBeside.cachedChunkTree`).
-/

namespace Atlas

open Text Program

variable {D : Digests} {t : Target} {I : Cache → Prop}

/-! ## The rule -/

/-- **A property of the store that no write undoes**: writing rows, sidecars, blobs and
trees keeps it. -/
structure CacheInvariant (D : Digests) (I : Cache → Prop) : Prop where
  rows : ∀ c rows, I c → I { c with rows := rows }
  writeMeta : ∀ c key m, I c → I (Cas.writeMeta key m c)
  publish : ∀ c key file, I c → I (Cas.publish key file c)
  storeChunkTree : ∀ c blake3 key file n, Cas.blobPath blake3 = .ok key →
    c.blobs key = some file → I c →
    I (Cas.storeChunkTree blake3 (ChunkTree.fromFile D file n) c)
  removeBlob : ∀ c blake3 c', Cas.removeBlob blake3 c = .ok c' → I c → I c'

namespace CacheInvariant

variable (h : CacheInvariant D I)

include h

theorem buildChunkTree {c : Cache} (hc : I c) (artifact : Artifact) (blake3 : Text) :
    I (buildChunkTree D artifact blake3 c) := by
  unfold Atlas.buildChunkTree
  split
  · rename_i file _ hfile
    cases hpath : Cas.blobPath blake3 with
    | error e =>
      rw [hpath] at hfile
      cases hfile
    | ok key =>
      rw [hpath] at hfile
      exact h.storeChunkTree _ _ key _ _ hpath hfile hc
  · exact hc

theorem finalizeBlob {c : Cache} (hc : I c) (artifact : Artifact) (m : BlobMeta)
    (buildsTree : Bool) : I (finalizeBlob D artifact m buildsTree c) := by
  have hrow : I (upsertRow m c) := h.rows c _ hc
  unfold Atlas.finalizeBlob
  dsimp only
  split
  · split
    · exact h.buildChunkTree (h.rows _ _ hrow) _ _
    · exact h.buildChunkTree hrow _ _
  · split
    · exact h.rows _ _ hrow
    · exact hrow

theorem indexBlob {c : Cache} (hc : I c) (artifact : Artifact) (m : BlobMeta) :
    I (indexBlob D artifact m c) :=
  h.buildChunkTree (h.rows c _ hc) artifact m.blake3

omit h in
/-- What is true of the store stays so as long as it is left as it was. -/
theorem steady (I : Cache → Prop) : Steady (fun d => I d.cache) where
  temps _ _ hd := hd
  downloads _ _ hd := hd
  trace _ _ hd := hd
  failure t e now := by
    intro d hd
    show I (recordFailure t e now d).2.cache
    rw [recordFailure_cache t e now d rfl]
    exact hd

/-! ## Downloads -/

theorem commitBlob (temp : Text) (hashes : Hashes) (size : ℕ) :
    Keeps (fun d => I d.cache) (Cas.commitBlob temp hashes size) := by
  unfold Cas.commitBlob
  refine Keeps.bind (Keeps.ofExcept _) fun key => Keeps.bind Keeps.get fun d => ?_
  dsimp only
  split
  · refine Keeps.bind (Keeps.modify fun _ hd => hd) fun _ => ?_
    split
    · exact Keeps.pure _
    · exact Keeps.bind (Keeps.modify fun d => h.writeMeta _ _ _) fun _ => Keeps.pure _
  · split
    · exact Keeps.throw _
    · exact Keeps.bind (Keeps.modify fun d hd => h.writeMeta _ _ _ (h.publish _ _ _ hd))
        fun _ => Keeps.pure _

/-- Committing a temp and recording the success. -/
theorem commitRecorded (hashes : Hashes) (size now : ℕ) : Keeps (fun d => I d.cache) (do
    let m ← Cas.commitBlob t.temp hashes size
    modify (recordResult t.sourceId true false now)
    pure m) :=
  Keeps.bind (h.commitBlob _ _ _) fun _ =>
    Keeps.bind (Keeps.modify fun _ hd => hd) fun _ => Keeps.pure _

theorem streamOnce (attempt : Attempt) :
    Keeps (fun d => I d.cache) (streamOnce D t attempt) :=
  Keeps.bind ((steady I).streamToCommit attempt) fun _ => h.commitRecorded _ _ _

theorem streamSegmented (connections : ℕ) (run : SegmentedRun) :
    Keeps (fun d => I d.cache) (streamSegmented D t connections run) := by
  unfold Atlas.streamSegmented
  dsimp only
  split
  · exact Keeps.throw _
  · refine Keeps.bind (steady I).presizeTemp fun _ =>
      Keeps.bind (Keeps.result ((steady I).runSegments run _)) fun r => ?_
    cases r with
    | error e =>
      exact Keeps.bind (Keeps.whenever fun _ => (steady I).resetSegmentedPartial)
        fun _ => Keeps.throw _
    | ok u =>
      refine Keeps.ite (Keeps.bind (steady I).resetSegmentedPartial fun _ => Keeps.throw _) ?_
      exact Keeps.bind (Streaming.verifyTempFull _) fun _ => h.commitRecorded _ _ _

theorem attemptLoop (run : SourceRun) (retries n : ℕ) :
    Keeps (fun d => I d.cache) (attemptLoop D t run retries n) := by
  have hfailure := fun e now => (steady I).failure t e now
  induction retries generalizing n with
  | zero =>
    unfold Atlas.attemptLoop
    refine Keeps.bind (Keeps.result (h.streamOnce _)) fun r => ?_
    cases r with
    | ok m => exact Keeps.pure m
    | error e => exact Keeps.ite (Keeps.throw e) (Keeps.bind (hfailure e _) fun _ => Keeps.throw e)
  | succ retries ih =>
    unfold Atlas.attemptLoop
    refine Keeps.bind (Keeps.result (h.streamOnce _)) fun r => ?_
    cases r with
    | ok m => exact Keeps.pure m
    | error e =>
      exact Keeps.ite (Keeps.throw e) (Keeps.bind (hfailure e _) fun _ =>
        Keeps.ite (ih (n + 1)) (Keeps.throw e))

theorem trySource (maxAttempts : ℕ) (run : SourceRun) :
    Keeps (fun d => I d.cache) (trySource D maxAttempts t run) := by
  unfold Atlas.trySource
  cases run.preflight with
  | error e => exact Keeps.throw _
  | ok u =>
    refine Keeps.bind Keeps.get fun d => Keeps.ite ?_ (h.attemptLoop run _ 0)
    refine Keeps.bind (Keeps.result (h.streamSegmented _ _)) fun r => ?_
    cases r with
    | ok m => exact Keeps.pure m
    | error e =>
      exact Keeps.ite (Keeps.throw e) (Keeps.bind (Keeps.modify fun d =>
        (steady I).truncateTo _ _) fun _ => h.attemptLoop run _ 0)

theorem sourceLoop (ctx : LoopContext) (plan : List PlannedSource)
    (partialOwner : Option Text) (lastErr : Option Error) :
    Keeps (fun d => I d.cache) (sourceLoop D ctx plan partialOwner lastErr) := by
  induction plan generalizing partialOwner lastErr with
  | nil => exact Keeps.bind (Keeps.modify fun _ hd => hd) fun _ => Keeps.throw _
  | cons planned rest ih =>
    refine Keeps.ite ((steady I).finishCancelled _ _ _) (Keeps.bind Keeps.get fun d => ?_)
    refine Keeps.ite (ih _ _) (Keeps.bind (Keeps.whenever fun _ =>
      Keeps.modify fun d => (steady I).truncateTo _ _) fun _ => ?_)
    refine Keeps.bind (Keeps.result (h.trySource _ _)) fun r => ?_
    cases r with
    | ok m =>
      exact Keeps.bind (Keeps.modify fun d hd => h.finalizeBlob hd _ _ _) fun _ => Keeps.pure _
    | error e =>
      exact Keeps.ite ((steady I).finishCancelled _ _ _) (Keeps.bind Keeps.get fun d => ih _ _)

theorem downloadArtifact (maxAttempts : ℕ) (manifestId : Text) (artifact : Artifact)
    (run : DownloadRun) :
    Keeps (fun d => I d.cache) (downloadArtifact D maxAttempts manifestId artifact run) := by
  refine Keeps.bind Keeps.get fun d => ?_
  cases cachedBlake3 d.cache artifact with
  | some blake3 =>
    exact Keeps.bind (Keeps.modify fun d => h.rows d.cache _) fun _ => Keeps.pure _
  | none =>
    refine Keeps.ite (Keeps.throw _) (Keeps.ite (Keeps.throw _) ?_)
    refine Keeps.bind (Keeps.modify fun _ hd => hd) fun _ => Keeps.bind Keeps.get fun d => ?_
    exact Keeps.bind ((steady I).adoptPartial _ _ _) fun _ => h.sourceLoop _ _ _ _

/-! ## Imports, eviction and reconciliation -/

omit h in
theorem importManifest (m : Manifest) : Keeps (fun d => I d.cache) (importManifest m) := by
  unfold Atlas.importManifest
  cases m.validate with
  | error e => exact Keeps.throw e
  | ok u => exact Keeps.modify fun _ hd => hd

theorem importFile (file : Bytes) (hashes : Hashes) (size : ℕ) :
    Keeps (fun d => I d.cache) (Cas.importFile file hashes size) := by
  refine Keeps.bind Keeps.get fun d => Keeps.ite ?_ ?_
  · refine Keeps.bind (Keeps.ofExcept _) fun key => ?_
    exact Keeps.bind (Keeps.modify fun d => h.writeMeta _ _ _) fun _ => Keeps.pure _
  · exact Keeps.bind (Keeps.modify fun _ hd => hd) fun _ => h.commitBlob _ _ _

theorem importArtifactFile (manifestId artifactPath : Text) (file : Bytes) :
    Keeps (fun d => I d.cache) (importArtifactFile D manifestId artifactPath file) := by
  refine Keeps.bind Keeps.get fun d => Keeps.bind (Keeps.ofExcept _) fun m => ?_
  cases m.artifact artifactPath with
  | none => exact Keeps.throw _
  | some artifact =>
    refine Keeps.ite (Keeps.throw _) ?_
    split
    · exact Keeps.throw _
    · exact Keeps.bind (h.importFile file _ _) fun _ =>
        Keeps.bind (Keeps.modify fun d hd => h.indexBlob hd _ _) fun _ => Keeps.pure _

theorem importLocalFile (file : Bytes) (manifest : Manifest) :
    Keeps (fun d => I d.cache) (importLocalFile D file manifest) := by
  refine Keeps.bind (importManifest _) fun _ => Keeps.bind (h.importFile file _ _) fun m => ?_
  split
  · exact Keeps.pure m
  · exact Keeps.bind (Keeps.modify fun d hd => h.indexBlob hd _ _) fun _ => Keeps.pure m

theorem evictOne (installs : List InstallRow) (blake3 : Text) :
    Keeps (fun d => I d.cache) (evictOne installs blake3) := by
  unfold Atlas.evictOne
  refine Keeps.bind (Keeps.modify fun _ hd => hd) fun _ => ?_
  intro d hd
  rw [bind_apply, get_apply, andThen_ok, bind_apply]
  cases Cas.blobMeta d.cache blake3 with
  | error e => exact hd
  | ok m =>
    rw [ofExcept_ok, andThen_ok, bind_apply]
    cases hremove : Cas.removeBlob blake3 d.cache with
    | error e => exact hd
    | ok cache => exact h.rows _ _ (h.removeBlob _ _ _ hremove hd)

theorem evictCache (policy : EvictPolicy) :
    Keeps (fun d => I d.cache) (evictCache policy) :=
  Keeps.bind Keeps.get fun d => Keeps.bind
    (Keeps.forM _ fun blake3 _ => h.evictOne d.installs blake3) fun _ => Keeps.pure _

theorem reconcileRow {c : Cache} (hc : I c) (row : CacheBlob) : I (reconcileRow row c) := by
  unfold Atlas.reconcileRow
  split
  · exact hc
  · cases hremove : Cas.removeBlob row.blake3 c with
    | error e => exact h.rows _ _ hc
    | ok cache => exact h.rows _ _ (h.removeBlob _ _ _ hremove hc)

theorem reconcile (live : List Text) (hasTemp : Text → Bool) {d : Disk} (hd : I d.cache) :
    I (reconcile live hasTemp d).cache := by
  have hrows : ∀ (rows : List CacheBlob) (c : Cache), I c →
      I (rows.foldl (fun c row => Atlas.reconcileRow row c) c) := by
    intro rows
    induction rows with
    | nil => exact fun _ hc => hc
    | cons row rows ih => exact fun c hc => ih _ (h.reconcileRow hc row)
  have hdownloads : ∀ (rows : List DownloadRow) (d : Disk),
      (rows.foldl (fun d row => reconcileDownload live hasTemp row d) d).cache = d.cache := by
    intro rows
    induction rows with
    | nil => exact fun _ => rfl
    | cons row rows ih =>
      exact fun d => (ih _).trans (reconcileDownload_cache live hasTemp row d)
  unfold Atlas.reconcile
  dsimp only
  rw [hdownloads]
  exact hrows _ _ hd

/-! ## Runs -/

/-- **Every operation keeps it.** -/
theorem apply (op : Op) {d : Disk} (hd : I d.cache) : I (op.apply D d).cache := by
  cases op with
  | importManifest m => exact CacheInvariant.importManifest m d hd
  | downloadArtifact maxAttempts manifestId artifact run =>
    exact h.downloadArtifact maxAttempts manifestId artifact run d hd
  | importArtifactFile manifestId artifactPath file =>
    exact h.importArtifactFile manifestId artifactPath file d hd
  | importLocalFile file manifest => exact h.importLocalFile file manifest d hd
  | evictCache policy => exact h.evictCache policy d hd
  | reconcile live hasTemp => exact h.reconcile live hasTemp hd

/-- **What no write undoes holds after any operations.** -/
theorem runOps (ops : List Op) {d : Disk} (hd : I d.cache) : I (runOps D ops d).cache := by
  induction ops generalizing d with
  | nil => exact hd
  | cons op ops ih => exact ih (h.apply op hd)

end CacheInvariant

/-! ## Chunk trees -/

/-- A chunk tree is in the store beside its blob only, so that reading the tree of a key
always finds the file it describes. -/
def TreesBeside (c : Cache) : Prop :=
  ∀ key tree, c.trees key = some tree → (c.blobs key).isSome

theorem treesBeside_invariant (D : Digests) : CacheInvariant D TreesBeside where
  rows _ _ hc := hc
  writeMeta _ _ _ hc := hc
  publish c key file hc := by
    intro key' tree htree
    show (Function.update c.blobs key (some file) key').isSome
    by_cases hkey : key' = key
    · rw [hkey, Function.update_self]
      rfl
    · rw [Function.update_of_ne hkey]
      exact hc key' tree htree
  -- the tree is stored beside the blob just read from disk, so that blob is there
  storeChunkTree c blake3 key file n hpath hfile hc := by
    intro key' tree htree
    by_cases hkey : key' = blake3.toAsciiLowercase
    · rw [hkey, ← blobPath_eq_ok hpath]
      show (c.blobs key).isSome
      rw [hfile]
      rfl
    · have hold : Function.update c.trees blake3.toAsciiLowercase
          (some (ChunkTree.fromFile D file n)) key' = some tree := htree
      rw [Function.update_of_ne hkey] at hold
      exact hc key' tree hold
  removeBlob c blake3 c' hok hc := by
    unfold Cas.removeBlob at hok
    cases hpath : Cas.blobPath blake3 with
    | error e =>
      rw [hpath] at hok
      cases hok
    | ok gone =>
      rw [hpath] at hok
      cases hok
      intro key tree htree
      have htree' : Function.update c.trees gone none key = some tree := htree
      by_cases hkey : key = gone
      · rw [hkey, Function.update_self] at htree'
        cases htree'
      · rw [Function.update_of_ne hkey] at htree'
        show (Function.update c.blobs gone none key).isSome
        rw [Function.update_of_ne hkey]
        exact hc key tree htree'

/-- **After any operations a chunk tree is beside its blob.** -/
theorem runOps_treesBeside (D : Digests) (ops : List Op) :
    TreesBeside (runOps D ops Disk.empty).cache :=
  (treesBeside_invariant D).runOps ops fun _ _ h => nomatch h

/-- **A transfer of a content that is named by its BLAKE3 finds no chunk tree.** -/
theorem TreesBeside.cachedChunkTree {c : Cache} (h : TreesBeside c) {artifact : Artifact}
    {key : Text} (hblake3 : artifact.hashes.hasBlake3 = true)
    (hpath : Cas.blobPath artifact.hashes.blake3 = .ok key)
    (hcached : cachedBlake3 c artifact = none) : cachedChunkTree D c artifact = none := by
  have hnone : c.blobs key = none := by
    by_contra hsome
    have hhas : Cas.hasBlob c artifact.hashes.blake3 = true := by
      unfold Cas.hasBlob
      rw [hpath]
      exact Option.isSome_iff_ne_none.mpr hsome
    unfold cachedBlake3 at hcached
    rw [hblake3, hhas, if_pos (Bool.and_self true)] at hcached
    cases hcached
  have hload : Cas.loadChunkTree c artifact.hashes.blake3 = none := by
    unfold Cas.loadChunkTree
    cases htree : c.trees artifact.hashes.blake3.toAsciiLowercase with
    | none => rfl
    | some tree =>
      have hblob := h _ tree htree
      rw [← blobPath_eq_ok hpath, hnone] at hblob
      cases hblob
  unfold Atlas.cachedChunkTree
  cases artifact.chunking with
  | none => rfl
  | some chunking =>
    dsimp only
    rw [hload]

end Atlas
