import Atlas.Commit
import Atlas.Transition
import Mathlib.Data.List.Nodup

/-!
# The cache index

The `cache_blobs` table is what a download trusts when it does not transfer
anything: a row names a blob file, and says which SHA-256 and which git OID it
has. Rows are written from several places. A transfer and an import write what
was computed from the bytes; a cache hit writes what the manifest declares
about a blob that is already there, and nothing compares the two.

So whether the table is true depends on the manifests. The results here say on
what exactly: on the states reached by runs in which no cache hit is given a
declaration that the cached blob does not meet, and in which no eviction names
a blob by another spelling than its row does, every row is true and every
download returns what it was asked for.
-/

namespace Atlas

open Text Program Transition

variable {D : Digests} {c c' : Cache}

/-! ## Rows and the blobs they name -/

/-- Every row names a blob that is there, and stands in relation `R` to it. -/
def RowsSound (R : CacheBlob → Bytes → Prop) (c : Cache) : Prop :=
  ∀ row ∈ c.rows, ∃ key b, Cas.blobPath row.blake3 = .ok key ∧ c.blobs key = some b ∧
    R row b

/-- The row `cache_blobs` gets for a blob it has none for, from its sidecar, and without a
git object id. -/
def newRow (m : BlobMeta) : CacheBlob := ⟨m.blake3, m.sha256, m.sizeBytes, none⟩

namespace RowsSound

variable {R : CacheBlob → Bytes → Prop}

/-- Rows stay sound as blobs are added. -/
theorem of_kept (h : RowsSound R c) (hrows : c'.rows = c.rows)
    (hkept : ∀ key b, c.blobs key = some b → c'.blobs key = some b) : RowsSound R c' := by
  intro row hrow
  rw [hrows] at hrow
  obtain ⟨key, b, hpath, hb, hR⟩ := h row hrow
  exact ⟨key, b, hpath, hkept key b hb, hR⟩

/-- Rewriting the rows of one key, truly of the blob the key names. -/
theorem map (h : RowsSound R c) {k key : Text} {b : Bytes} {f : CacheBlob → CacheBlob}
    (hf : ∀ row, (f row).blake3 = row.blake3) (hpath : Cas.blobPath k = .ok key)
    (hb : c.blobs key = some b)
    (hR : ∀ row ∈ c.rows, row.blake3 = k → R row b → R (f row) b) :
    RowsSound R { c with
      rows := c.rows.map fun row => if row.blake3 = k then f row else row } := by
  intro row hrow
  obtain ⟨old, hold, rfl⟩ := List.mem_map.mp hrow
  obtain ⟨key', b', hpath', hb', hR'⟩ := h old hold
  by_cases hk : old.blake3 = k
  · rw [if_pos hk, hf]
    rw [hk, hpath] at hpath'
    cases hpath'
    rw [hb] at hb'
    cases hb'
    exact ⟨key, b, hk ▸ hpath, hb, hR old hold hk hR'⟩
  · rw [if_neg hk]
    exact ⟨key', b', hpath', hb', hR'⟩

/-- **Upserting a row of a blob that is there.** -/
theorem upsert (h : RowsSound R c) {m : BlobMeta} {key : Text} {b : Bytes}
    (hpath : Cas.blobPath m.blake3 = .ok key) (hb : c.blobs key = some b)
    (hupdate : ∀ old ∈ c.rows, old.blake3 = m.blake3 → R old b → R (Db.updateRow m old) b)
    (hnew : (∀ old ∈ c.rows, old.blake3 ≠ m.blake3) → R (newRow m) b) :
    RowsSound R (upsertRow m c) := by
  unfold upsertRow Db.upsertCacheBlob
  by_cases hany : (c.rows.any fun row => row.blake3 = m.blake3) = true
  · rw [if_pos hany]
    exact h.map (fun _ => rfl) hpath hb hupdate
  · rw [if_neg hany]
    intro row hrow
    obtain hrow | hrow := List.mem_append.mp hrow
    · exact h row hrow
    · rw [List.mem_singleton] at hrow
      subst hrow
      refine ⟨key, b, hpath, hb, hnew fun old hold he => hany ?_⟩
      exact List.any_eq_true.mpr ⟨old, hold, decide_eq_true he⟩

end RowsSound

/-- The digests a row records are those of a byte string, as far as it records any. -/
structure CacheBlob.DigestsTrue (D : Digests) (row : CacheBlob) (b : Bytes) : Prop where
  sha256 : row.sha256 ≠ [] → eqIgnoreAsciiCase row.sha256 (hexEncode (D.sha256 b))
  git : ∀ oid, row.gitBlobSha1 = some oid → eqIgnoreAsciiCase oid (gitBlobOid D b)

/-- **A row is true of a byte string**: its key is the BLAKE3, its digests, as
far as it records them, and its size are those of the bytes. -/
structure CacheBlob.TrueOf (D : Digests) (row : CacheBlob) (b : Bytes) : Prop where
  blake3 : row.blake3 = hexEncode (D.blake3 b)
  sha256 : eqIgnoreAsciiCase row.sha256 (hexEncode (D.sha256 b))
  git : ∀ oid, row.gitBlobSha1 = some oid → eqIgnoreAsciiCase oid (gitBlobOid D b)
  sizeBytes : row.sizeBytes = b.length

theorem CacheBlob.TrueOf.digestsTrue {row : CacheBlob} {b : Bytes} (h : row.TrueOf D b) :
    row.DigestsTrue D b :=
  ⟨fun _ => h.sha256, h.git⟩

/-- A SHA-256 to be recorded is that of a byte string, if it is not empty. -/
def BlobMeta.Sha256True (D : Digests) (m : BlobMeta) (b : Bytes) : Prop :=
  m.sha256 ≠ [] → eqIgnoreAsciiCase m.sha256 (hexEncode (D.sha256 b))

/-- A size to be recorded is that of a byte string, if a row takes it. -/
def BlobMeta.SizeTrue (m : BlobMeta) (b : Bytes) : Prop :=
  0 < m.sizeBytes ∧ m.sizeBytes < 2 ^ 63 → m.sizeBytes = b.length

namespace BlobMeta

variable {m : BlobMeta} {b : Bytes} {old : CacheBlob}

theorem TrueOf.sha256True (h : m.TrueOf D b) : m.Sha256True D b := fun _ => by
  rw [h.sha256]
  exact eqIgnoreAsciiCase_refl _

theorem TrueOf.sizeTrue (h : m.TrueOf D b) : m.SizeTrue b := fun _ => h.sizeBytes

/-- Updating a row with a true SHA-256 keeps its digests true. -/
theorem Sha256True.updateRow (h : m.Sha256True D b) (hold : old.DigestsTrue D b) :
    (Db.updateRow m old).DigestsTrue D b := by
  refine ⟨fun hne => ?_, hold.git⟩
  unfold Db.updateRow at hne ⊢
  dsimp only at hne ⊢
  by_cases hm : m.sha256 ≠ []
  · rw [if_pos hm]
    exact h hm
  · rw [if_neg hm] at hne ⊢
    exact hold.sha256 hne

/-- Updating a row with a true SHA-256 and a true size keeps it true. -/
theorem updateRow_trueOf (hsha : m.Sha256True D b) (hsize : m.SizeTrue b)
    (hold : old.TrueOf D b) : (Db.updateRow m old).TrueOf D b := by
  refine ⟨hold.blake3, ?_, hold.git, ?_⟩
  · unfold Db.updateRow
    dsimp only
    by_cases hm : m.sha256 ≠ []
    · rw [if_pos hm]
      exact hsha hm
    · rw [if_neg hm]
      exact hold.sha256
  · unfold Db.updateRow
    dsimp only
    by_cases hm : 0 < m.sizeBytes ∧ m.sizeBytes < 2 ^ 63
    · rw [if_pos hm]
      exact hsize hm
    · rw [if_neg hm]
      exact hold.sizeBytes

theorem Sha256True.newRow (h : m.Sha256True D b) : (newRow m).DigestsTrue D b :=
  ⟨h, fun _ hnone => by cases hnone⟩

theorem TrueOf.newRow (h : m.TrueOf D b) : (newRow m).TrueOf D b := by
  refine ⟨h.blake3, ?_, fun _ hnone => (nomatch hnone), h.sizeBytes⟩
  show eqIgnoreAsciiCase m.sha256 _ = true
  rw [h.sha256]
  exact eqIgnoreAsciiCase_refl _

end BlobMeta

/-! ## Indexing a committed blob -/

/-- A relation between rows and blobs that the index keeps when what is
recorded was computed from the bytes. -/
structure Indexable (D : Digests) (R : CacheBlob → Bytes → Prop) : Prop where
  update : ∀ {m : BlobMeta} {old : CacheBlob} {b : Bytes}, m.TrueOf D b → R old b →
    R (Db.updateRow m old) b
  new : ∀ {m : BlobMeta} {b : Bytes}, m.TrueOf D b → R (newRow m) b
  git : ∀ {oid : Text} {row : CacheBlob} {b : Bytes},
    eqIgnoreAsciiCase oid (gitBlobOid D b) → R row b → R { row with gitBlobSha1 := some oid } b

theorem digestsTrue_indexable : Indexable D (CacheBlob.DigestsTrue D) where
  update hm hold := hm.sha256True.updateRow hold
  new hm := hm.sha256True.newRow
  git hoid hrow := ⟨hrow.sha256, fun _ h => by cases h; exact hoid⟩

theorem trueOf_indexable : Indexable D (CacheBlob.TrueOf D) where
  update hm hold := BlobMeta.updateRow_trueOf hm.sha256True hm.sizeTrue hold
  new hm := hm.newRow
  git hoid hrow :=
    ⟨hrow.blake3, hrow.sha256, fun _ h => by cases h; exact hoid, hrow.sizeBytes⟩

@[simp] theorem buildChunkTree_blobs (artifact : Artifact) (blake3 : Text) (c : Cache) :
    (buildChunkTree D artifact blake3 c).blobs = c.blobs := by
  unfold buildChunkTree
  split <;> rfl

@[simp] theorem buildChunkTree_metas (artifact : Artifact) (blake3 : Text) (c : Cache) :
    (buildChunkTree D artifact blake3 c).metas = c.metas := by
  unfold buildChunkTree
  split <;> rfl

@[simp] theorem buildChunkTree_rows (artifact : Artifact) (blake3 : Text) (c : Cache) :
    (buildChunkTree D artifact blake3 c).rows = c.rows := by
  unfold buildChunkTree
  split <;> rfl

@[simp] theorem finalizeBlob_blobs (artifact : Artifact) (m : BlobMeta) (buildsTree : Bool)
    (c : Cache) : (finalizeBlob D artifact m buildsTree c).blobs = c.blobs := by
  unfold finalizeBlob
  dsimp only
  cases buildsTree <;> cases artifact.hashes.hasGitBlobSha1 <;> simp [upsertRow]

@[simp] theorem finalizeBlob_metas (artifact : Artifact) (m : BlobMeta) (buildsTree : Bool)
    (c : Cache) : (finalizeBlob D artifact m buildsTree c).metas = c.metas := by
  unfold finalizeBlob
  dsimp only
  cases buildsTree <;> cases artifact.hashes.hasGitBlobSha1 <;> simp [upsertRow]

/-- The rows after a transfer: the blob's row is written, with the git OID the
verifier proved. -/
theorem finalizeBlob_rows (artifact : Artifact) (m : BlobMeta) (buildsTree : Bool)
    (c : Cache) : (finalizeBlob D artifact m buildsTree c).rows =
      if artifact.hashes.hasGitBlobSha1 then
        Db.setCacheBlobGitSha1 m.blake3 artifact.hashes.gitBlobSha1
          (Db.upsertCacheBlob m c.rows)
      else Db.upsertCacheBlob m c.rows := by
  unfold finalizeBlob
  dsimp only
  cases buildsTree <;> cases artifact.hashes.hasGitBlobSha1 <;> simp [upsertRow]

/-- The store stays content-addressed whatever happens to rows and trees. -/
theorem CasSound.congr (h : CasSound D c) (hblobs : c'.blobs = c.blobs)
    (hmetas : c'.metas = c.metas) : CasSound D c' := by
  constructor
  · rw [hblobs]
    exact h.blob
  · rw [hblobs, hmetas]
    exact h.sidecar

namespace RowsSound

variable {R : CacheBlob → Bytes → Prop}

/-- **Indexing a committed blob keeps the rows sound.** -/
theorem upsert_committed (hR : Indexable D R) {P : Bytes → Prop} {m : BlobMeta}
    (h : RowsSound R c) (hcommit : Committed D P c c' m) : RowsSound R (upsertRow m c') := by
  obtain ⟨b, hb, hm, -⟩ := hcommit.blob
  exact (h.of_kept hcommit.rows hcommit.kept).upsert (hcommit.sound.blob _ b hb).2 hb
    (fun old _ _ hold => hR.update hm hold) (fun _ => hR.new hm)

theorem finalizeBlob (hR : Indexable D R) {artifact : Artifact} {m : BlobMeta}
    (h : RowsSound R c) (hcommit : Committed D (artifact.Describes D) c c' m)
    (buildsTree : Bool) : RowsSound R (finalizeBlob D artifact m buildsTree c') := by
  obtain ⟨b, hb, hm, hdesc⟩ := hcommit.blob
  have hupsert := h.upsert_committed hR hcommit
  have hgoal : RowsSound R { c' with
      rows := (Atlas.finalizeBlob D artifact m buildsTree c').rows } := by
    rw [finalizeBlob_rows]
    by_cases hgit : artifact.hashes.hasGitBlobSha1 = true
    · rw [if_pos hgit]
      exact hupsert.map (fun _ => rfl) (hcommit.sound.blob _ b hb).2 hb
        (fun _ _ _ hrow => hR.git (hdesc.digests.gitBlobSha1 hgit) hrow)
    · rw [if_neg hgit]
      exact hupsert
  intro row hrow
  rw [finalizeBlob_blobs]
  exact hgoal row hrow

theorem indexBlob (hR : Indexable D R) {P : Bytes → Prop} {m : BlobMeta}
    (h : RowsSound R c) (hcommit : Committed D P c c' m) (artifact : Artifact) :
    RowsSound R (indexBlob D artifact m c') := by
  have hupsert := h.upsert_committed hR hcommit
  intro row hrow
  unfold Atlas.indexBlob at hrow ⊢
  rw [buildChunkTree_rows] at hrow
  rw [buildChunkTree_blobs]
  exact hupsert row hrow

end RowsSound

/-! ## The keys of the rows -/

/-- The primary keys of the index, in the order in which their rows were inserted. -/
def Cache.keys (c : Cache) : List Text := c.rows.map CacheBlob.blake3

/-- Upserting keeps the keys there are, and adds the one it is for. -/
theorem keys_upsertRow (m : BlobMeta) (c : Cache) : (upsertRow m c).keys =
    if m.blake3 ∈ c.keys then c.keys else c.keys ++ [m.blake3] := by
  have hany : (c.rows.any fun row => row.blake3 = m.blake3) = true ↔ m.blake3 ∈ c.keys := by
    rw [List.any_eq_true, Cache.keys, List.mem_map]
    exact exists_congr fun row => and_congr_right fun _ => decide_eq_true_iff
  unfold upsertRow Db.upsertCacheBlob
  by_cases hm : m.blake3 ∈ c.keys
  · rw [if_pos hm, if_pos (hany.mpr hm)]
    show (c.rows.map _).map CacheBlob.blake3 = c.keys
    rw [List.map_map]
    refine List.map_congr_left fun row _ => ?_
    show CacheBlob.blake3 (if row.blake3 = m.blake3 then Db.updateRow m row else row) = _
    split <;> rfl
  · rw [if_neg hm, if_neg (mt hany.mp hm)]
    exact List.map_append

theorem nodup_keys_upsertRow {m : BlobMeta} (h : c.keys.Nodup) :
    (upsertRow m c).keys.Nodup := by
  rw [keys_upsertRow]
  by_cases hm : m.blake3 ∈ c.keys
  · rw [if_pos hm]
    exact h
  · rw [if_neg hm]
    exact List.nodup_append.mpr ⟨h, List.nodup_singleton _, fun a ha b hb hab =>
      hm (List.mem_singleton.mp hb ▸ hab ▸ ha)⟩

theorem mem_keys_upsertRow {m : BlobMeta} {key : Text} :
    key ∈ (upsertRow m c).keys ↔ key ∈ c.keys ∨ key = m.blake3 := by
  rw [keys_upsertRow]
  by_cases hm : m.blake3 ∈ c.keys
  · rw [if_pos hm]
    exact ⟨Or.inl, fun h => h.elim id fun he => he ▸ hm⟩
  · rw [if_neg hm, List.mem_append, List.mem_singleton]

theorem keys_finalizeBlob (artifact : Artifact) (m : BlobMeta) (buildsTree : Bool)
    (c : Cache) : (finalizeBlob D artifact m buildsTree c).keys = (upsertRow m c).keys := by
  unfold Cache.keys
  rw [finalizeBlob_rows]
  split
  · unfold Db.setCacheBlobGitSha1
    rw [List.map_map]
    refine List.map_congr_left fun row _ => ?_
    show CacheBlob.blake3 (if row.blake3 = m.blake3 then _ else row) = _
    split <;> rfl
  · rfl

theorem keys_indexBlob (artifact : Artifact) (m : BlobMeta) (c : Cache) :
    (indexBlob D artifact m c).keys = (upsertRow m c).keys := by
  unfold indexBlob Cache.keys
  rw [buildChunkTree_rows]

/-! ## Eviction -/

/-- The store after blobs were evicted: their files, sidecars and rows are gone
and everything else is there. -/
structure Evicted (ks : List Text) (c c' : Cache) : Prop where
  rows : ∀ row, row ∈ c'.rows ↔ row ∈ c.rows ∧ row.blake3 ∉ ks
  sublist : c'.rows.Sublist c.rows
  blobs : ∀ key, c'.blobs key = if key ∈ ks.map toAsciiLowercase then none else c.blobs key
  metas : ∀ key, c'.metas key = if key ∈ ks.map toAsciiLowercase then none else c.metas key

theorem Evicted.nil (c : Cache) : Evicted [] c c :=
  ⟨fun _ => (and_iff_left (List.not_mem_nil)).symm, List.Sublist.refl _, fun _ => rfl,
    fun _ => rfl⟩

/-- A blob path is the key in lower case. -/
theorem blobPath_eq_ok {k key : Text} (h : Cas.blobPath k = .ok key) :
    key = k.toAsciiLowercase := by
  unfold Cas.blobPath at h
  split at h
  · cases h
  · cases h
    rfl

/-- Evicting one blob. -/
theorem evictOne_spec (installs : List InstallRow) (k : Text) (d : Disk) :
    (∃ e, Cas.blobPath k = .error e ∧ (evictOne installs k d).1 = .err e ∧
      (evictOne installs k d).2.cache = d.cache) ∨
    (Cas.blobPath k = .ok k.toAsciiLowercase ∧ (evictOne installs k d).1 = .ok () ∧
      Evicted [k] d.cache (evictOne installs k d).2.cache) := by
  unfold evictOne
  simp only [bind_apply, modify_apply, andThen_ok, get_apply]
  cases hpath : Cas.blobPath k with
  | error e =>
    refine Or.inl ⟨e, rfl, ?_⟩
    simp only [Cas.blobMeta, hpath, ofExcept_error, andThen_err, and_self]
  | ok key =>
    have hkey := blobPath_eq_ok hpath
    subst hkey
    refine Or.inr ⟨rfl, ?_⟩
    simp only [Cas.blobMeta, Cas.removeBlob, hpath, ofExcept_ok, andThen_ok, bind_apply,
      modify_apply, true_and]
    refine ⟨fun row => ?_, List.filter_sublist, fun key => ?_, fun key => ?_⟩
    · simp [Db.deleteCacheBlob]
    · by_cases hk : key = k.toAsciiLowercase <;> simp [hk]
    · by_cases hk : key = k.toAsciiLowercase <;> simp [hk]

theorem Evicted.trans {k : Text} {ks : List Text} {c₁ : Cache} (h₁ : Evicted [k] c c₁)
    (h₂ : Evicted ks c₁ c') : Evicted (k :: ks) c c' := by
  refine ⟨fun row => ?_, h₂.sublist.trans h₁.sublist, fun key => ?_, fun key => ?_⟩
  · rw [h₂.rows, h₁.rows, List.mem_singleton, List.mem_cons]
    tauto
  · rw [h₂.blobs, h₁.blobs]
    by_cases hk : key = k.toAsciiLowercase <;> simp [hk]
  · rw [h₂.metas, h₁.metas]
    by_cases hk : key = k.toAsciiLowercase <;> simp [hk]

/-- Evicting blobs whose names are well formed evicts all of them. -/
theorem forM_evictOne_spec (installs : List InstallRow) (ks : List Text) (d : Disk)
    (hks : ∀ k ∈ ks, Cas.blobPath k = .ok k.toAsciiLowercase) :
    Evicted ks d.cache (ks.forM (evictOne installs) d).2.cache := by
  induction ks generalizing d with
  | nil => exact Evicted.nil _
  | cons k ks ih =>
    show Evicted _ _ (andThen _ (evictOne installs k d)).2.cache
    obtain ⟨e, he, -⟩ | ⟨-, hok, hone⟩ := evictOne_spec installs k d
    · rw [hks k List.mem_cons_self] at he
      cases he
    · rcases hrun : evictOne installs k d with ⟨r, d₁⟩
      rw [hrun] at hok hone
      subst hok
      exact hone.trans (ih d₁ fun k' hk' => hks k' (List.mem_cons_of_mem k hk'))

/-- What evicting by a policy does, on a store whose rows have blobs: it ends
before it touched the store, or it evicted everything the policy names. -/
theorem evictCache_spec {R : CacheBlob → Bytes → Prop} {d : Disk}
    (hrows : RowsSound R d.cache) (policy : EvictPolicy) :
    (evictCache policy d).2.cache = d.cache ∨
      Evicted (evicted policy d) d.cache (evictCache policy d).2.cache := by
  have hkeys : ∀ k ∈ d.cache.rows.map CacheBlob.blake3,
      Cas.blobPath k = .ok k.toAsciiLowercase := by
    intro k hk
    obtain ⟨row, hrow, rfl⟩ := List.mem_map.mp hk
    obtain ⟨key, b, hpath, -⟩ := hrows row hrow
    rw [hpath, blobPath_eq_ok hpath]
  have hcache : (evictCache policy d).2.cache =
      ((evicted policy d).forM (evictOne d.installs) d).2.cache := by
    unfold evictCache
    rw [bind_apply, get_apply, andThen_ok, bind_apply]
    rcases (evicted policy d).forM (evictOne d.installs) d with ⟨_ | _ | _, d'⟩ <;> rfl
  rw [hcache]
  cases policy with
  | all => exact Or.inr (forM_evictOne_spec _ _ _ hkeys)
  | unreferenced =>
    exact Or.inr (forM_evictOne_spec _ _ _ fun k hk => hkeys k (List.mem_of_mem_filter hk))
  | blob b =>
    obtain ⟨e, -, herr, hsame⟩ | ⟨hpath, -⟩ := evictOne_spec d.installs b d
    · refine Or.inl ?_
      show (andThen _ (evictOne d.installs b d)).2.cache = d.cache
      rcases hrun : evictOne d.installs b d with ⟨r, d'⟩
      rw [hrun] at herr hsame
      subst herr
      exact hsame
    · refine Or.inr (forM_evictOne_spec _ _ _ fun k hk => ?_)
      rw [List.mem_singleton.mp hk]
      exact hpath

/-- An eviction takes the rows of the blobs it takes: no row of another
spelling names a blob that is to go. -/
def EvictsRows (policy : EvictPolicy) (d : Disk) : Prop :=
  ∀ k ∈ evicted policy d, ∀ row ∈ d.cache.rows,
    row.blake3.toAsciiLowercase = k.toAsciiLowercase → row.blake3 ∈ evicted policy d

section Evicted

variable {ks : List Text}

theorem Evicted.casSound (h : Evicted ks c c') (hc : CasSound D c) : CasSound D c' := by
  constructor
  · intro key b hb
    rw [h.blobs] at hb
    by_cases hk : key ∈ ks.map Text.toAsciiLowercase
    · rw [if_pos hk] at hb
      cases hb
    · rw [if_neg hk] at hb
      exact hc.blob key b hb
  · intro key m b hm hb
    rw [h.blobs] at hb
    rw [h.metas] at hm
    by_cases hk : key ∈ ks.map Text.toAsciiLowercase
    · rw [if_pos hk] at hb
      cases hb
    · rw [if_neg hk] at hb hm
      exact hc.sidecar key m b hm hb

theorem Evicted.rowsSound {R : CacheBlob → Bytes → Prop} (h : Evicted ks c c')
    (hrows : RowsSound R c)
    (hwhole : ∀ k ∈ ks, ∀ row ∈ c.rows,
      row.blake3.toAsciiLowercase = k.toAsciiLowercase → row.blake3 ∈ ks) :
    RowsSound R c' := by
  intro row hrow
  obtain ⟨hold, hnot⟩ := (h.rows row).mp hrow
  obtain ⟨key, b, hpath, hb, hR⟩ := hrows row hold
  refine ⟨key, b, hpath, ?_, hR⟩
  rw [h.blobs, if_neg, hb]
  intro hmem
  obtain ⟨k, hk, hkey⟩ := List.mem_map.mp hmem
  exact hnot (hwhole k hk row hold ((blobPath_eq_ok hpath).symm.trans hkey.symm))

end Evicted

/-! ## Reconciliation -/

theorem reconcileDownload_cache (live : List Text) (hasTemp : Text → Bool)
    (row : DownloadRow) (d : Disk) : (reconcileDownload live hasTemp row d).cache = d.cache := by
  unfold reconcileDownload
  split
  · rfl
  · split
    · split <;> rfl
    · rfl

/-- A store whose rows all have their blobs is left as it is. -/
theorem reconcile_cache {R : CacheBlob → Bytes → Prop} {d : Disk}
    (hrows : RowsSound R d.cache) (live : List Text) (hasTemp : Text → Bool) :
    (reconcile live hasTemp d).cache = d.cache := by
  have hfold : ∀ rows : List CacheBlob, (∀ row ∈ rows, row ∈ d.cache.rows) →
      rows.foldl (fun c row => reconcileRow row c) d.cache = d.cache := by
    intro rows
    induction rows with
    | nil => exact fun _ => rfl
    | cons row rows ih =>
      intro hmem
      have hrow : reconcileRow row d.cache = d.cache := by
        obtain ⟨key, b, hpath, hb, -⟩ := hrows row (hmem row List.mem_cons_self)
        unfold reconcileRow Cas.hasBlob
        rw [hpath]
        simp only [hb, Option.isSome_some, if_true]
      rw [List.foldl_cons, hrow]
      exact ih fun row' h => hmem row' (List.mem_cons_of_mem row h)
  have hdownloads : ∀ (rows : List DownloadRow) (d : Disk),
      (rows.foldl (fun d row => reconcileDownload live hasTemp row d) d).cache = d.cache := by
    intro rows
    induction rows with
    | nil => exact fun _ => rfl
    | cons row rows ih => exact fun d => (ih _).trans (reconcileDownload_cache live hasTemp row d)
  unfold reconcile
  rw [hdownloads]
  exact hfold _ fun _ h => h

end Atlas
