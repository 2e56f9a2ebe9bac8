import Atlas.CacheIndex

/-!
# Runs of the cache

What an operation of the engine can do to the store is one of five things
(`CacheStep`, `Op.apply_cacheStep`); four of them keep every row true whatever
they meet. The fifth is the cache hit, which copies the declarations of a
manifest into the row of a blob it did not read.

A cache hit is harmless when no blob in the store has the digest the lookup
goes by and lacks something else the artifact declares (`HitAgrees`); it keeps
the index true when moreover a declared BLAKE3 is spelled as the store spells
it (`HitRecords`). Both are conditions on what a manifest declares, given what
is in the store, and the results about runs are for the runs in which every
download meets them.
-/

namespace Atlas

open Text Program Transition

variable {D : Digests} {c c' : Cache}

/-! ## What an operation does to the store -/

/-- What an operation can do to the store's index: five kinds of step, one of which every
operation takes. -/
inductive CacheStep (D : Digests) : Op → Disk → Cache → Prop where
  /-- Nothing, as when it fails. -/
  | same (op : Op) (d : Disk) : CacheStep D op d d.cache
  /-- A download found a blob, and upserted its row with what is declared. -/
  | hit {maxAttempts : ℕ} {manifestId : Text} {artifact : Artifact} {run : DownloadRun}
    {d : Disk} {blake3 : Text} (h : cachedBlake3 d.cache artifact = some blake3) :
    CacheStep D (.downloadArtifact maxAttempts manifestId artifact run) d
      (upsertRow ⟨blake3, artifact.hashes.sha256, artifact.sizeBytes⟩ d.cache)
  /-- A download committed a transferred blob. -/
  | transfer {maxAttempts : ℕ} {manifestId : Text} {artifact : Artifact}
    {run : DownloadRun} {d : Disk} {c : Cache} {m : BlobMeta} (buildsTree : Bool)
    (h : Committed D (artifact.Describes D) d.cache c m) :
    CacheStep D (.downloadArtifact maxAttempts manifestId artifact run) d
      (finalizeBlob D artifact m buildsTree c)
  /-- An import committed a local file. -/
  | index {op : Op} {d : Disk} {c : Cache} {m : BlobMeta} {P : Bytes → Prop}
    (artifact : Artifact) (h : Committed D P d.cache c m) :
    CacheStep D op d (indexBlob D artifact m c)
  /-- Blobs were evicted. -/
  | evict {policy : EvictPolicy} {d : Disk} {c : Cache}
    (h : Evicted (evicted policy d) d.cache c) : CacheStep D (.evictCache policy) d c

theorem importManifest_cache (m : Manifest) (d : Disk) :
    (importManifest m d).2.cache = d.cache := by
  unfold importManifest
  cases m.validate <;> rfl

/-- A manifest that is imported has an artifact. -/
theorem importManifest_artifacts {m : Manifest} {d d' : Disk}
    (h : importManifest m d = (.ok (), d')) : m.artifacts ≠ [] := by
  unfold importManifest at h
  cases hvalid : m.validate with
  | error e =>
    rw [hvalid] at h
    cases h
  | ok u =>
    intro hnil
    unfold Manifest.validate at hvalid
    simp only [hnil, List.isEmpty_nil, if_true] at hvalid
    revert hvalid
    by_cases hschema : m.schemaVersion ≠ SCHEMA_VERSION
    · simp [hschema, bind, Except.bind]
    · cases hid : validateManifestId m.manifestId <;>
        cases hpub : m.publisherId.trim.isEmpty <;> simp [hschema, bind, Except.bind]

/-- Importing a file and indexing it. -/
theorem importFile_index (hinj : Function.Injective D.blake3) {d d' : Disk}
    (hsame : d'.cache = d.cache) (hc : CasSound D d.cache) (file : Bytes)
    (artifact : Artifact) (op : Op) :
    CacheStep D op d (((do
      let m ← Cas.importFile file (hashFile D file).1 (hashFile D file).2
      modify fun d => { d with cache := indexBlob D artifact m d.cache }
      pure m) : Program Disk Error BlobMeta) d').2.cache := by
  have hcommit := importFile_commits hinj hc file d' hsame
  rw [bind_apply]
  generalize Cas.importFile file _ _ d' = x at hcommit ⊢
  rcases x with ⟨m | e | _, d''⟩
  · exact .index artifact hcommit
  · show CacheStep D op d d''.cache
    rw [show d''.cache = d.cache from hcommit]
    exact .same op d
  · show CacheStep D op d d''.cache
    rw [show d''.cache = d.cache from hcommit]
    exact .same op d

/-- **What an operation does to the store is one of these.** -/
theorem Op.apply_cacheStep (hinj : Function.Injective D.blake3)
    {R : CacheBlob → Bytes → Prop} {d : Disk} (hc : CasSound D d.cache)
    (hrows : RowsSound R d.cache) (op : Op) : CacheStep D op d (op.apply D d).cache := by
  -- per operation, which step of `CacheStep` it takes; an operation that fails takes `same`
  cases op with
  | importManifest m =>
    show CacheStep D _ d (Atlas.importManifest m d).2.cache
    rw [importManifest_cache]
    exact .same _ d
  | downloadArtifact maxAttempts manifestId artifact run =>
    have hspec := downloadArtifact_spec hinj hc maxAttempts manifestId artifact run d rfl
    show CacheStep D _ d (Atlas.downloadArtifact D maxAttempts manifestId artifact run d).2.cache
    generalize Atlas.downloadArtifact D maxAttempts manifestId artifact run d = x at hspec ⊢
    rcases x with ⟨o | e | _, d'⟩
    · obtain ⟨hfound, hcache⟩ | ⟨c', m, buildsTree, hcommit, hcache, -⟩ := hspec
      · rw [hcache]
        exact .hit hfound
      · rw [hcache]
        exact .transfer buildsTree hcommit
    · rw [show d'.cache = d.cache from hspec]
      exact .same _ d
    · rw [show d'.cache = d.cache from hspec]
      exact .same _ d
  | importArtifactFile manifestId artifactPath file =>
    show CacheStep D _ d (Atlas.importArtifactFile D manifestId artifactPath file d).2.cache
    unfold Atlas.importArtifactFile
    rw [bind_apply, get_apply, andThen_ok]
    cases requireManifest manifestId d with
    | error e => exact .same _ d
    | ok m =>
      rw [bind_apply, ofExcept_ok, andThen_ok]
      -- an import whose file does not have the declared digests is refused before it touches the
      -- index
      cases m.artifact artifactPath with
      | none => exact .same _ d
      | some artifact =>
        dsimp only
        split
        · exact .same _ d
        · cases artifact.hashes.mismatchAgainst (hashFile D file).1 with
          | some mismatch => exact .same _ d
          | none => exact importFile_index hinj rfl hc file artifact _
  | importLocalFile file manifest =>
    show CacheStep D _ d (Atlas.importLocalFile D file manifest d).2.cache
    unfold Atlas.importLocalFile
    dsimp only
    generalize fillFirstBlake3 (hashFile D file).1.blake3 manifest.artifacts = artifacts
    rw [bind_apply]
    have hsame := importManifest_cache { manifest with artifacts := artifacts } d
    rcases himport : Atlas.importManifest { manifest with artifacts := artifacts } d with
      ⟨u | e | _, d'⟩
    · rw [himport] at hsame
      rw [andThen_ok]
      cases artifacts with
      | nil => exact absurd rfl (importManifest_artifacts himport)
      | cons art rest => exact importFile_index hinj hsame hc file art _
    · rw [himport] at hsame
      rw [andThen_err, hsame]
      exact .same _ d
    · rw [himport] at hsame
      rw [andThen_crash, hsame]
      exact .same _ d
  | evictCache policy =>
    show CacheStep D _ d (Atlas.evictCache policy d).2.cache
    obtain hsame | hevict := evictCache_spec hrows policy
    · rw [hsame]
      exact .same _ d
    · exact .evict hevict
  | reconcile live hasTemp =>
    show CacheStep D _ d (Atlas.reconcile live hasTemp d).cache
    rw [reconcile_cache hrows]
    exact .same _ d

/-! ## What a cache hit finds -/

/-- A byte string has the digest the cache lookup of an artifact goes by: the
BLAKE3 when a blob of it is in the store, else the SHA-256, else the git OID. -/
def LookedUpBy (D : Digests) (a : Artifact) (c : Cache) (b : Bytes) : Prop :=
  if a.hashes.hasBlake3 && Cas.hasBlob c a.hashes.blake3 then
    eqIgnoreAsciiCase a.hashes.blake3 (hexEncode (D.blake3 b)) = true
  else if a.hashes.hasSha256 then
    eqIgnoreAsciiCase a.hashes.sha256 (hexEncode (D.sha256 b)) = true
  else a.hashes.hasGitBlobSha1 = true ∧
    eqIgnoreAsciiCase a.hashes.gitBlobSha1 (gitBlobOid D b) = true

/-- **What a cache hit finds**: a blob that has the digest the lookup went by,
under the declared BLAKE3 or under the key of a row. -/
theorem cachedBlake3_spec (hc : CasSound D c)
    (hrows : RowsSound (CacheBlob.DigestsTrue D) c) {a : Artifact} {blake3 : Text}
    (h : cachedBlake3 c a = some blake3) :
    ∃ key b, Cas.blobPath blake3 = .ok key ∧ c.blobs key = some b ∧ LookedUpBy D a c b ∧
      (blake3 = a.hashes.blake3 ∧ a.hashes.hasBlake3 = true ∨
        ∃ row ∈ c.rows, row.blake3 = blake3) := by
  unfold cachedBlake3 at h
  -- the order of the lookups is the source's: a blob under the declared BLAKE3, then a row with the
  -- SHA-256, then one with the git object id
  by_cases hb : (a.hashes.hasBlake3 && Cas.hasBlob c a.hashes.blake3) = true
  · rw [if_pos hb] at h
    cases h
    obtain ⟨hdeclared, hhas⟩ := Bool.and_eq_true_iff.mp hb
    unfold Cas.hasBlob at hhas
    cases hpath : Cas.blobPath a.hashes.blake3 with
    | error e =>
      rw [hpath] at hhas
      cases hhas
    | ok key =>
      rw [hpath] at hhas
      obtain ⟨b, hblob⟩ := Option.isSome_iff_exists.mp hhas
      refine ⟨key, b, rfl, hblob, ?_, Or.inl ⟨rfl, hdeclared⟩⟩
      unfold LookedUpBy
      rw [if_pos hb, eqIgnoreAsciiCase_iff, toAsciiLowercase_hexEncode,
        ← (hc.blob key b hblob).1]
      exact (blobPath_eq_ok hpath).symm
  · rw [if_neg hb] at h
    simp only [LookedUpBy, if_neg hb]
    by_cases hs : a.hashes.hasSha256 = true
    · simp only [if_pos hs] at h ⊢
      obtain ⟨row, hfind, rfl⟩ := Option.map_eq_some_iff.mp h
      have hmem := List.mem_of_find?_eq_some hfind
      have hsha : row.sha256 = a.hashes.sha256 := by simpa using List.find?_some hfind
      obtain ⟨key, b, hpath, hblob, htrue⟩ := hrows row hmem
      refine ⟨key, b, hpath, hblob, ?_, Or.inr ⟨row, hmem, rfl⟩⟩
      rw [← hsha]
      refine htrue.sha256 fun hnil => ?_
      rw [Hashes.hasSha256, ← hsha, hnil] at hs
      exact absurd hs (by decide)
    · simp only [if_neg hs] at h ⊢
      by_cases hg : a.hashes.hasGitBlobSha1 = true
      · rw [if_pos hg] at h
        obtain ⟨row, hfind, rfl⟩ := Option.map_eq_some_iff.mp h
        have hmem := List.mem_of_find?_eq_some hfind
        have hgit : row.gitBlobSha1 = some a.hashes.gitBlobSha1 := by
          simpa using List.find?_some hfind
        obtain ⟨key, b, hpath, hblob, htrue⟩ := hrows row hmem
        exact ⟨key, b, hpath, hblob, ⟨hg, htrue.git _ hgit⟩, Or.inr ⟨row, hmem, rfl⟩⟩
      · rw [if_neg hg] at h
        cases h

/-! ## A store to look at -/

/-- A manifest of the one file `abc`, as it is synthesized for a local import. -/
def abcManifest : Manifest where
  schemaVersion := SCHEMA_VERSION
  manifestId := "local-abc".toList
  publisherId := "local".toList
  access := ⟨false, false, []⟩
  artifacts := [{
    path := "abc.bin".toList
    sizeBytes := 3
    hashes := ⟨(hashBytes sampleDigests abc).blake3, (hashBytes sampleDigests abc).sha256, []⟩
    chunking := none
    sources := [.localFile "abc.bin".toList] }]

/-- An artifact that declares the BLAKE3 of `abc` and the SHA-256 of an empty file. -/
def mixedArtifact : Artifact where
  path := "mixed.bin".toList
  sizeBytes := 0
  hashes := ⟨(hashBytes sampleDigests abc).blake3, (hashBytes sampleDigests []).sha256, []⟩
  chunking := none
  sources := [.httpsMirror "https://mirror.example/mixed.bin".toList .none]

/-- A manifest of that artifact alone, imported under an id of its own. -/
def mixedManifest : Manifest :=
  { abcManifest with manifestId := "mixed".toList, artifacts := [mixedArtifact] }

/-- A download that is given no plan: no source is asked, so only the cache can satisfy it. -/
def idleRun : DownloadRun := ⟨false, false, [], [], true⟩

/-- The store after `abc` was imported from a local file, with one blob and one row. -/
def abcStore : Disk := runOps sampleDigests [.importLocalFile abc abcManifest] Disk.empty

/-- Downloading an artifact in that store, with no source to fall back on. -/
def abcStoreDownload (m : Manifest) (a : Artifact) : Exit Error ArtifactOutcome × Disk :=
  downloadArtifact sampleDigests 3 m.manifestId a idleRun abcStore

/-- A program that returns returns from the state it leaves. -/
theorem eq_of_fst_eq {α β : Type} {x : α × β} {a : α} (h : x.1 = a) : x = (a, x.2) :=
  Prod.ext h rfl

/-! ## Runs in which cache hits agree with their manifests -/

/-- No blob in the store has the digest the lookup of an artifact goes by and
lacks something else the artifact declares. -/
def HitAgrees (D : Digests) (a : Artifact) (c : Cache) : Prop :=
  ∀ key b, c.blobs key = some b → LookedUpBy D a c b → a.Describes D b

/-- A blob found under a declared BLAKE3 is the content of the artifact, if it has
one at all: BLAKE3 leaves no other. -/
theorem lookedUpBy_eq (hinj : Function.Injective D.blake3) {a : Artifact} {b b₀ : Bytes}
    (ha : a.Describes D b₀) (hdeclared : a.hashes.hasBlake3)
    (hhas : Cas.hasBlob c a.hashes.blake3) (hby : LookedUpBy D a c b) : b = b₀ := by
  unfold LookedUpBy at hby
  rw [if_pos (by rw [hdeclared, hhas]; rfl), eqIgnoreAsciiCase_iff] at hby
  have hb₀ := eqIgnoreAsciiCase_iff.mp (ha.digests.blake3 hdeclared)
  exact hinj (hexEncode_eqIgnoreAsciiCase.mp
    (eqIgnoreAsciiCase_iff.mpr (hby.symm.trans hb₀)))

/-- The condition on an operation, in the state it is applied in, under which
the store keeps what downloads rely on. -/
def Agreeing (D : Digests) (d : Disk) : Op → Prop
  | .downloadArtifact _ _ a _ => HitAgrees D a d.cache
  | .evictCache policy => EvictsRows policy d
  | _ => True

/-- **What downloads rely on**: the store is content-addressed and a row's
digests are those of the blob it names. -/
structure CacheSound (D : Digests) (R : CacheBlob → Bytes → Prop) (c : Cache) : Prop where
  cas : CasSound D c
  rows : RowsSound R c

theorem CacheSound.empty (D : Digests) (R : CacheBlob → Bytes → Prop) :
    CacheSound D R Disk.empty.cache :=
  ⟨⟨fun _ _ h => (nomatch h), fun _ _ _ h => (nomatch h)⟩, fun _ h => (nomatch h)⟩

/-- A step keeps the store sound if its cache hit, when it is one, and its
eviction, when it is one, do. -/
theorem CacheSound.step {R : CacheBlob → Bytes → Prop} (hR : Indexable D R) {op : Op}
    {d : Disk} (h : CacheSound D R d.cache) (hstep : CacheStep D op d c')
    (hhit : ∀ n id a run blake3, op = .downloadArtifact n id a run →
      cachedBlake3 d.cache a = some blake3 →
      RowsSound R (upsertRow ⟨blake3, a.hashes.sha256, a.sizeBytes⟩ d.cache))
    (hevict : ∀ policy, op = .evictCache policy → EvictsRows policy d) :
    CacheSound D R c' := by
  cases hstep with
  | same => exact h
  | hit hfound => exact ⟨h.cas.congr rfl rfl, hhit _ _ _ _ _ rfl hfound⟩
  | transfer buildsTree hcommit =>
    exact ⟨hcommit.sound.congr (finalizeBlob_blobs _ _ _ _) (finalizeBlob_metas _ _ _ _),
      h.rows.finalizeBlob hR hcommit buildsTree⟩
  | index artifact hcommit =>
    exact ⟨hcommit.sound.congr (buildChunkTree_blobs _ _ _) (buildChunkTree_metas _ _ _),
      h.rows.indexBlob hR hcommit artifact⟩
  | evict hevicted =>
    exact ⟨hevicted.casSound h.cas, hevicted.rowsSound h.rows (hevict _ rfl)⟩

/-- The digests of the rows stay true through an operation that meets the condition. -/
theorem Agreeing.preserves (hinj : Function.Injective D.blake3) {d : Disk} {op : Op}
    (h : CacheSound D (CacheBlob.DigestsTrue D) d.cache) (hop : Agreeing D d op) :
    CacheSound D (CacheBlob.DigestsTrue D) (op.apply D d).cache := by
  refine h.step digestsTrue_indexable (Op.apply_cacheStep hinj h.cas h.rows op)
    (fun n id a run blake3 heq hfound => ?_) (fun policy heq => ?_)
  · subst heq
    obtain ⟨key, b, hpath, hblob, hby, -⟩ := cachedBlake3_spec h.cas h.rows hfound
    have hdesc := hop key b hblob hby
    have hsha : BlobMeta.Sha256True D ⟨blake3, a.hashes.sha256, a.sizeBytes⟩ b :=
      fun hne => hdesc.digests.sha256 (by simp [Hashes.hasSha256, hne])
    exact h.rows.upsert hpath hblob (fun old _ _ hold => hsha.updateRow hold)
      fun _ => hsha.newRow
  · subst heq
    exact hop

/-- **The store stays sound over a run** of operations that meet the condition, each in the
state the earlier ones have led to. -/
theorem CacheSound.runOps (hinj : Function.Injective D.blake3) {ops : List Op}
    (hops : Along (fun d op => op.apply D d) (Agreeing D) ops Disk.empty) :
    CacheSound D (CacheBlob.DigestsTrue D) (runOps D ops Disk.empty).cache :=
  hops.invariant (I := fun d => CacheSound D (CacheBlob.DigestsTrue D) d.cache)
    (fun _ _ h hop => Agreeing.preserves hinj h hop) (CacheSound.empty D _)

/-- A download returned what its artifact declares: the store has a blob under
the BLAKE3 it reports, and the blob has every declared digest and the declared size. -/
def DeliversDeclared (D : Digests) (a : Artifact) (o : ArtifactOutcome) (d : Disk) : Prop :=
  ∃ key b, Cas.blobPath o.blake3 = .ok key ∧ d.cache.blobs key = some b ∧ a.Describes D b

/-- **A download that returns delivers what its artifact declares**, after every
run of operations that meet the condition, if it meets the condition itself. -/
theorem downloadArtifact_delivers (hinj : Function.Injective D.blake3) {ops : List Op}
    (hops : Along (fun d op => op.apply D d) (Agreeing D) ops Disk.empty)
    {maxAttempts : ℕ} {manifestId : Text} {a : Artifact} {run : DownloadRun}
    (ha : HitAgrees D a (runOps D ops Disk.empty).cache) {o : ArtifactOutcome} {d : Disk}
    (hok : downloadArtifact D maxAttempts manifestId a run (runOps D ops Disk.empty) =
      (.ok o, d)) : DeliversDeclared D a o d := by
  have hsound := CacheSound.runOps hinj hops
  have hspec := downloadArtifact_spec hinj hsound.cas maxAttempts manifestId a run _ rfl
  rw [hok] at hspec
  obtain ⟨hfound, hcache⟩ | ⟨c', m, buildsTree, hcommit, hcache, ho⟩ := hspec
  · obtain ⟨key, b, hpath, hblob, hby, -⟩ := cachedBlake3_spec hsound.cas hsound.rows hfound
    refine ⟨key, b, hpath, ?_, ha key b hblob hby⟩
    rw [hcache]
    exact hblob
  · obtain ⟨b, hblob, hm, hdesc⟩ := hcommit.blob
    refine ⟨m.blake3, b, ?_, ?_, hdesc⟩
    · rw [ho]
      exact (hcommit.sound.blob _ b hblob).2
    · rw [hcache, finalizeBlob_blobs]
      exact hblob

/-- **A download can return without delivering what is declared**: the store has
the blob of the declared BLAKE3, and nothing compares the declared SHA-256 with it. -/
theorem downloadArtifact_returns_undeclared :
    mixedManifest.validate = .ok () ∧ mixedArtifact ∈ mixedManifest.artifacts ∧
      ∃ o d, downloadArtifact sampleDigests 3 mixedManifest.manifestId mixedArtifact
          idleRun (runOps sampleDigests [.importLocalFile abc abcManifest] Disk.empty) =
            (.ok o, d) ∧
        ¬ DeliversDeclared sampleDigests mixedArtifact o d := by
  have hret : (abcStoreDownload mixedManifest mixedArtifact).1 =
      .ok ⟨mixedArtifact.path, mixedArtifact.hashes.blake3, true, none, 0⟩ := by
    decide +kernel
  have habc : (abcStoreDownload mixedManifest mixedArtifact).2.cache.blobs
      mixedArtifact.hashes.blake3 = some abc := by
    decide +kernel
  refine ⟨by decide +kernel, List.mem_singleton_self _, _, _, eq_of_fst_eq hret, ?_⟩
  rintro ⟨key, b, hpath, hblob, hdesc⟩
  have hkey : key = mixedArtifact.hashes.blake3 := by
    rw [blobPath_eq_ok hpath]
    decide +kernel
  have hb : b = abc := by
    rw [hkey] at hblob
    exact Option.some.inj (hblob.symm.trans habc)
  rw [hb] at hdesc
  exact absurd (hdesc.digests.sha256 (by decide +kernel)) (by decide +kernel)

/-- The artifact of the manifest of `abc` is one that hits agree with. -/
theorem hitAgrees_abc :
    ∀ a ∈ abcManifest.artifacts, HitAgrees sampleDigests a abcStore.cache := by
  intro a ha key b _ hby
  rw [abcManifest, List.mem_singleton] at ha
  have hdesc : a.Describes sampleDigests abc := by
    subst ha
    exact ⟨⟨fun _ => eqIgnoreAsciiCase_refl _, fun _ => eqIgnoreAsciiCase_refl _,
      fun h => (nomatch h)⟩, fun _ => rfl⟩
  have hb := lookedUpBy_eq sampleDigests_injective hdesc (by subst ha; decide +kernel)
    (by subst ha; decide +kernel) hby
  rw [hb]
  exact hdesc

/-- Downloading `abc` again delivers it. -/
theorem downloadArtifact_delivers_abc :
    ∃ a ∈ abcManifest.artifacts, ∃ o d, downloadArtifact sampleDigests 3
        abcManifest.manifestId a idleRun
        (runOps sampleDigests [.importLocalFile abc abcManifest] Disk.empty) = (.ok o, d) ∧
      DeliversDeclared sampleDigests a o d := by
  have hmem := (List.head_mem (by decide) : abcManifest.artifacts.head (by decide) ∈ _)
  have hops : Along (fun d op => op.apply sampleDigests d) (Agreeing sampleDigests)
      [.importLocalFile abc abcManifest] Disk.empty := ⟨trivial, trivial⟩
  have hret : (abcStoreDownload abcManifest (abcManifest.artifacts.head (by decide))).1 =
      .ok ⟨"abc.bin".toList, (hashBytes sampleDigests abc).blake3, true, none, 3⟩ := by
    decide +kernel
  exact ⟨_, hmem, _, _, eq_of_fst_eq hret, downloadArtifact_delivers sampleDigests_injective
    hops (hitAgrees_abc _ hmem) (eq_of_fst_eq hret)⟩

/-! ## Runs in which cache hits record what is true -/

/-- What a cache hit would record about a blob is true of it: a declared SHA-256
is its own, and so is a declared size. -/
def RecordsTrue (D : Digests) (a : Artifact) (b : Bytes) : Prop :=
  BlobMeta.Sha256True D ⟨a.hashes.blake3, a.hashes.sha256, a.sizeBytes⟩ b ∧
    BlobMeta.SizeTrue ⟨a.hashes.blake3, a.hashes.sha256, a.sizeBytes⟩ b

/-- A declared BLAKE3 that is in the store is spelled as the store spells it, and
what a hit would record about a blob that has the digest the lookup goes by is
true of it. -/
def HitRecords (D : Digests) (a : Artifact) (c : Cache) : Prop :=
  (a.hashes.hasBlake3 → Cas.hasBlob c a.hashes.blake3 →
    a.hashes.blake3.toAsciiLowercase = a.hashes.blake3) ∧
  ∀ key b, c.blobs key = some b → LookedUpBy D a c b → RecordsTrue D a b

/-- The condition on an operation, in the state it is applied in, under which
the index stays true. -/
def Recording (D : Digests) (d : Disk) : Op → Prop
  | .downloadArtifact _ _ a _ => HitRecords D a d.cache
  | .evictCache policy => EvictsRows policy d
  | _ => True

/-- **The index is true**: every row is true of the blob it names, keys are
unique, and every blob has a row. -/
structure IndexSound (D : Digests) (c : Cache) : Prop extends
    CacheSound D (CacheBlob.TrueOf D) c where
  nodup : c.keys.Nodup
  indexed : ∀ key b, c.blobs key = some b → key ∈ c.keys

theorem IndexSound.empty (D : Digests) : IndexSound D Disk.empty.cache :=
  ⟨CacheSound.empty D _, List.nodup_nil, fun _ _ h => (nomatch h)⟩

theorem IndexSound.digests (h : IndexSound D c) :
    RowsSound (CacheBlob.DigestsTrue D) c := fun row hrow => by
  obtain ⟨key, b, hpath, hblob, htrue⟩ := h.rows row hrow
  exact ⟨key, b, hpath, hblob, htrue.digestsTrue⟩

/-- A cache hit that records what is true finds a blob that has a row. -/
theorem IndexSound.hit_mem_keys (h : IndexSound D c) {a : Artifact} {blake3 : Text}
    (hspelled : a.hashes.hasBlake3 → Cas.hasBlob c a.hashes.blake3 →
      a.hashes.blake3.toAsciiLowercase = a.hashes.blake3)
    (hfound : cachedBlake3 c a = some blake3) : blake3 ∈ c.keys := by
  obtain ⟨key, b, hpath, hblob, -, ⟨rfl, hdeclared⟩ | ⟨row, hrow, rfl⟩⟩ :=
    cachedBlake3_spec h.cas h.digests hfound
  · have hhas : Cas.hasBlob c a.hashes.blake3 = true := by
      unfold Cas.hasBlob
      rw [hpath]
      simp only [hblob, Option.isSome_some]
    rw [← hspelled hdeclared hhas, ← blobPath_eq_ok hpath]
    exact h.indexed key b hblob
  · exact List.mem_map_of_mem hrow

/-- Committing a blob and writing its row keeps every blob indexed. -/
theorem IndexSound.indexed_committed (h : IndexSound D c) {P : Bytes → Prop}
    {m : BlobMeta} (hcommit : Committed D P c c' m) {key : Text} {b : Bytes}
    (hb : c'.blobs key = some b) : key ∈ (upsertRow m c').keys := by
  rw [mem_keys_upsertRow]
  obtain hold | hnew := hcommit.fresh key b hb
  · refine Or.inl ?_
    rw [Cache.keys, hcommit.rows]
    exact h.indexed key b hold
  · exact Or.inr hnew

theorem IndexSound.nodup_committed (h : IndexSound D c) {P : Bytes → Prop} {m : BlobMeta}
    (hcommit : Committed D P c c' m) : (upsertRow m c').keys.Nodup := by
  refine nodup_keys_upsertRow ?_
  rw [Cache.keys, hcommit.rows]
  exact h.nodup

/-- The index stays true through an operation that meets the condition. -/
theorem Recording.preserves (hinj : Function.Injective D.blake3) {d : Disk} {op : Op}
    (h : IndexSound D d.cache) (hop : Recording D d op) :
    IndexSound D (op.apply D d).cache := by
  have hstep := Op.apply_cacheStep hinj h.cas h.rows op
  -- a hit writes what the artifact declares over the row; `Recording` asks that this be true of the
  -- blob found
  have hhit : ∀ n id a run blake3, op = .downloadArtifact n id a run →
      cachedBlake3 d.cache a = some blake3 → RowsSound (CacheBlob.TrueOf D)
        (upsertRow ⟨blake3, a.hashes.sha256, a.sizeBytes⟩ d.cache) := by
    intro n id a run blake3 heq hfound
    subst heq
    obtain ⟨key, b, hpath, hblob, hby, -⟩ := cachedBlake3_spec h.cas h.digests hfound
    obtain ⟨hsha, hsize⟩ := hop.2 key b hblob hby
    refine h.rows.upsert hpath hblob
      (fun old _ _ hold => BlobMeta.updateRow_trueOf hsha hsize hold) fun hnone => ?_
    obtain ⟨row, hrow, hkey⟩ := List.mem_map.mp (h.hit_mem_keys hop.1 hfound)
    exact absurd hkey (hnone row hrow)
  have hsound := h.toCacheSound.step trueOf_indexable hstep hhit
    (fun policy heq => by subst heq; exact hop)
  generalize (op.apply D d).cache = c' at hstep hsound
  cases hstep with
  | same => exact h
  | hit hfound =>
    refine ⟨hsound, nodup_keys_upsertRow h.nodup, fun key b hb => ?_⟩
    exact mem_keys_upsertRow.mpr (Or.inl (h.indexed key b hb))
  | transfer buildsTree hcommit =>
    refine ⟨hsound, ?_, fun key b hb => ?_⟩
    · rw [keys_finalizeBlob]
      exact h.nodup_committed hcommit
    · rw [keys_finalizeBlob]
      rw [finalizeBlob_blobs] at hb
      exact h.indexed_committed hcommit hb
  | index artifact hcommit =>
    refine ⟨hsound, ?_, fun key b hb => ?_⟩
    · rw [keys_indexBlob]
      exact h.nodup_committed hcommit
    · rw [keys_indexBlob]
      rw [indexBlob, buildChunkTree_blobs] at hb
      exact h.indexed_committed hcommit hb
  -- a blob that stays keeps its row, since the rows evicted are those of the blobs evicted
  | evict hevicted =>
    refine ⟨hsound, h.nodup.sublist (hevicted.sublist.map _), fun key b hb => ?_⟩
    rw [hevicted.blobs] at hb
    split at hb
    · cases hb
    · rename_i hstays
      obtain ⟨row, hrow, rfl⟩ := List.mem_map.mp (h.indexed key b hb)
      refine List.mem_map_of_mem ((hevicted.rows row).mpr ⟨hrow, fun hgone => hstays ?_⟩)
      refine List.mem_map.mpr ⟨row.blake3, hgone, ?_⟩
      exact (blobPath_eq_ok (h.cas.blob _ b hb).2).symm

/-- What the index promises: every row is true of the blob it names, distinct
rows name distinct files, and a lookup by SHA-256 returns a blob that has it. -/
structure IndexTrue (D : Digests) (c : Cache) : Prop where
  rows : ∀ row ∈ c.rows, ∃ key b, Cas.blobPath row.blake3 = .ok key ∧
    c.blobs key = some b ∧ row.TrueOf D b
  distinct : (c.rows.map fun row => Cas.blobPath row.blake3).Nodup
  lookup : ∀ s blake3, Db.blake3ForSha256 s c.rows = some blake3 →
    ∃ key b, Cas.blobPath blake3 = .ok key ∧ c.blobs key = some b ∧
      eqIgnoreAsciiCase s (hexEncode (D.sha256 b))

/-- A sound index keeps its promises. -/
theorem IndexSound.indexTrue (h : IndexSound D c) : IndexTrue D c := by
  refine ⟨h.rows, ?_, fun s blake3 hfind => ?_⟩
  · have hpath : c.rows.map (fun row => Cas.blobPath row.blake3) =
        c.keys.map Except.ok := by
      unfold Cache.keys
      rw [List.map_map]
      refine List.map_congr_left fun row hrow => ?_
      obtain ⟨key, b, hpath, hblob, htrue⟩ := h.rows row hrow
      have hkey : row.blake3 = key := by
        rw [htrue.blake3]
        exact (h.cas.blob key b hblob).1.symm
      rw [hpath, ← hkey]
      rfl
    rw [hpath]
    exact h.nodup.map fun _ _ he => Except.ok.inj he
  · obtain ⟨row, hrow, rfl⟩ := Option.map_eq_some_iff.mp hfind
    obtain ⟨key, b, hpath, hblob, htrue⟩ := h.rows row (List.mem_of_find?_eq_some hrow)
    have hsha : row.sha256 = s := by simpa using List.find?_some hrow
    exact ⟨key, b, hpath, hblob, hsha ▸ htrue.sha256⟩

/-- **The index is true after every run of operations that meet the
condition.** -/
theorem runOps_indexTrue (hinj : Function.Injective D.blake3) {ops : List Op}
    (hops : Along (fun d op => op.apply D d) (Recording D) ops Disk.empty) :
    IndexTrue D (runOps D ops Disk.empty).cache :=
  (hops.invariant (I := fun d => IndexSound D d.cache)
    (fun _ _ h hop => Recording.preserves hinj h hop) (IndexSound.empty D)).indexTrue

/-- **The index can be untrue**: the hit that delivered `abc` for another file's
SHA-256 recorded that SHA-256 as that of `abc`. -/
theorem runOps_index_untrue :
    ¬ IndexTrue sampleDigests (runOps sampleDigests [.importLocalFile abc abcManifest,
      .importManifest mixedManifest,
      .downloadArtifact 3 mixedManifest.manifestId mixedArtifact idleRun]
        Disk.empty).cache := by
  intro h
  obtain ⟨key, b, hpath, hblob, hsha⟩ := h.lookup (hashBytes sampleDigests []).sha256
    (hashBytes sampleDigests abc).blake3 (by decide +kernel)
  have hkey : key = (hashBytes sampleDigests abc).blake3 := by
    rw [blobPath_eq_ok hpath]
    decide +kernel
  have habc : (runOps sampleDigests [.importLocalFile abc abcManifest,
      .importManifest mixedManifest,
      .downloadArtifact 3 mixedManifest.manifestId mixedArtifact idleRun]
        Disk.empty).cache.blobs (hashBytes sampleDigests abc).blake3 = some abc := by
    decide +kernel
  rw [hkey, habc] at hblob
  cases hblob
  exact absurd hsha (by decide +kernel)

/-- The index is true after `abc` was imported and found in the cache by a download, and it
has the SHA-256 of `abc`. -/
theorem runOps_indexTrue_abc :
    IndexTrue sampleDigests (runOps sampleDigests [.importLocalFile abc abcManifest,
      .downloadArtifact 3 abcManifest.manifestId (abcManifest.artifacts.head (by decide)) idleRun]
        Disk.empty).cache ∧
      (runOps sampleDigests [.importLocalFile abc abcManifest, .downloadArtifact 3
        abcManifest.manifestId (abcManifest.artifacts.head (by decide)) idleRun]
          Disk.empty).cache.rows.map CacheBlob.sha256 = [(hashBytes sampleDigests abc).sha256] := by
  refine ⟨runOps_indexTrue sampleDigests_injective ⟨trivial, ⟨?_, ?_⟩, trivial⟩, by decide +kernel⟩
  · exact fun _ _ => by decide +kernel
  · intro key b hblob hby
    have hdesc := hitAgrees_abc _ (List.head_mem (by decide)) key b hblob hby
    exact ⟨fun _ => hdesc.digests.sha256 (by decide +kernel),
      fun _ => (hdesc.size (by decide)).symm⟩

end Atlas
