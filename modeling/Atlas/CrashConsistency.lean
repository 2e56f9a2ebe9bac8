import Mathlib.Logic.Encodable.Basic
import Mathlib.Logic.Equiv.List
import Atlas.CrashingStore

/-!
# Crashes and the store

Whatever a crash leaves at the place of a blob is the blob: it gets there by a rename, when
all of it was written and verified elsewhere. A sidecar is written in place, and a crash
leaves any prefix of it.

Both are invariants of single steps (`Respects`), the first of every step and the second of
the steps of a process that does not die. `commits_crash_consistent` says that later
operations succeed exactly if every sidecar can be read, and that they do after every
history in which no crash came in the middle of a sidecar.
-/

namespace Atlas

open Text Program CrashFiles

variable (D : Digests) (C : MetaCodec)

/-- The key of a content: its BLAKE3 in hexadecimal, which is also the name of its blob. -/
def contentKey (content : Bytes) : Text := hexEncode (D.blake3 content)

/-- A file is under a name it may have: a blob under its own key, a sidecar under the key of
some content. -/
def Placed : StoreFile → Bytes → Prop
  | .blob key, bytes => key = contentKey D bytes
  | .metaJson key, _ => ∃ content, key = contentKey D content
  | .chunkTree key, _ => ∃ content, key = contentKey D content
  | .incoming _, _ => True
  | .temp _, _ => True

/-- A sidecar can be read back: metadata by the codec, a chunk tree by its own parser; blobs
and temps have no format. -/
def Reads : StoreFile → Bytes → Prop
  | .metaJson _, bytes => ∃ m, C.decode bytes = .ok m
  | .chunkTree _, bytes => ∃ tree, ChunkTree.fromBytes bytes = .ok tree
  | _, _ => True

/-- **What the steps of every operation keep**, for an invariant of stores and of processes
that work on them. -/
structure Respects (J : Running StoreFile StoreTables → Prop) : Prop where
  placed : ∀ s, J s → Everywhere (Placed D) s.volume
  tables : ∀ f : StoreVolume → StoreTables,
    Keeps J (atomically fun v => { v with tables := f v } : StoreSteps Unit)
  remove : ∀ name, Keeps J (remove name : StoreSteps Unit)
  writeTemp : ∀ name bytes, Triple J (writeFile (.temp name) bytes : StoreSteps Unit)
    (Returns J fun _ => On fun v => v.files (.temp name) = some bytes)
  cloneTemp : ∀ name bytes, Triple J
    (atomically (Volume.set (.temp name) (some bytes)) : StoreSteps Unit)
    (Returns J fun _ => On fun v => v.files (.temp name) = some bytes)
  publish : ∀ env temp file, Triple
    (fun s => J s ∧ s.volume.files (.temp temp) = some file)
    (Crashing.publish env temp (contentKey D file) file) (fun _ => J)
  writeMeta : ∀ content m now,
    Keeps J (writeFile (.metaJson (contentKey D content)) (C.encode m now) : StoreSteps Unit)
  writeTree : ∀ content file leafSize, Keeps J
    (writeFile (.chunkTree (contentKey D content)) (ChunkTree.fromFile D file leafSize).toBytes :
      StoreSteps Unit)

namespace Respects

open Crashing

variable {D C} {J : Running StoreFile StoreTables → Prop} {env : StoreEnv}

theorem keeps_writeMeta (h : Respects D C J) {m : BlobMeta} {content : Bytes}
    (hm : m.blake3 = contentKey D content) : Keeps J (Crashing.writeMeta C env m) := by
  refine Keeps.ofExcept_bind fun key hkey => ?_
  rw [hm] at hkey
  obtain rfl := blobPath_hexEncode hkey
  exact h.writeMeta content m env.now

theorem keeps_blobMeta (blake3 : Text) :
    Keeps J (Crashing.blobMeta C blake3) := by
  refine Keeps.ofExcept_bind fun key _ => Keeps.bind (fun _ h => h) fun v => ?_
  cases v.files (.metaJson key) with
  | none => exact Keeps.pure _
  | some bytes =>
    dsimp only
    cases C.decode bytes with
    | ok m => exact Keeps.pure _
    | error e => exact Keeps.throw _

/-- **A commit** of a temp file that is what its hashes are of. -/
theorem commitBlob (h : Respects D C J) {temp : Text} {hashes : Hashes} {size : ℕ}
    {content : Bytes} (hhashes : hashes.blake3 = contentKey D content) :
    Triple (fun s => J s ∧ s.volume.files (.temp temp) = some content)
      (Crashing.commitBlob C env temp hashes size) (fun _ => J) := by
  unfold Crashing.commitBlob
  rintro s ⟨hs, htemp⟩
  cases hkey : Cas.blobPath hashes.blake3 with
  | error e => exact hs
  | ok key =>
    have hcontent : key = contentKey D content := by
      rw [hhashes] at hkey
      exact blobPath_hexEncode hkey
    subst hcontent
    rw [bind_apply, ofExcept_ok, andThen_ok, bind_apply]
    show J (andThen _ ((look : StoreSteps _) s)).2
    rw [show (look : StoreSteps _) s = (.ok s.volume, s) from rfl, andThen_ok]
    cases hblob : s.volume.files (.blob (contentKey D content)) with
    | some _ =>
      refine (Keeps.bind (h.remove _) fun _ => Keeps.bind (keeps_blobMeta _) fun existing => ?_)
        s hs
      cases existing with
      | some m => exact Keeps.pure _
      | none => exact Keeps.bind (h.keeps_writeMeta hhashes) fun _ => Keeps.pure _
    | none =>
      dsimp only
      rw [htemp]
      refine Triple.bind (R := fun _ => J) (Q := fun _ => J) (h.publish env temp content) (fun _ => ?_)
        (fun _ _ h => h) (fun _ h => h) s ⟨hs, htemp⟩
      exact Keeps.bind (h.keeps_writeMeta hhashes) fun _ => Keeps.pure _

theorem reflinkOrCopy (h : Respects D C J) (temp : Text) (file : Bytes) :
    Triple J (Crashing.reflinkOrCopy env (.temp temp) file)
      (Returns J fun _ s => s.volume.files (.temp temp) = some file) := by
  refine Triple.bind_returns look_returns (fun _ => id) fun v => ?_
  refine (Triple.ite (fun _ => ?_) fun _ => ?_).conseq (fun _ h => h.1) fun _ _ h => h
  · exact h.cloneTemp temp file
  · exact h.writeTemp temp file

theorem keeps_importFile (h : Respects D C J) {file : Bytes} {hashes : Hashes} {size : ℕ}
    (hhashes : hashes.blake3 = contentKey D file) :
    Keeps J (Crashing.importFile C env file hashes size) := by
  refine Keeps.bind (fun _ h => h) fun v => Keeps.ite ?_ ?_
  · exact Keeps.bind (h.keeps_writeMeta hhashes) fun _ => Keeps.pure _
  · exact Keeps.bind_returns (h.reflinkOrCopy _ file) fun _ => h.commitBlob hhashes

theorem keeps_loadChunkTree (blake3 : Text) : Keeps J (Crashing.loadChunkTree blake3) := by
  refine Keeps.bind (fun _ h => h) fun v => ?_
  cases v.files (.chunkTree blake3.toAsciiLowercase) with
  | none => exact Keeps.pure _
  | some bytes =>
    dsimp only
    cases ChunkTree.fromBytes bytes with
    | ok tree => exact Keeps.pure _
    | error e => exact Keeps.throw _

theorem keeps_updateRows (h : Respects D C J) (f : List CacheBlob → List CacheBlob) :
    Keeps J (Crashing.updateRows f) :=
  h.tables fun v => { v.tables with rows := f v.tables.rows }

/-- A chunk tree is written where there is a blob, and so under the key of a content. -/
theorem keeps_ensureChunkTree (h : Respects D C J) (artifact : Artifact) (blake3 : Text) :
    Keeps J (Crashing.ensureChunkTree D artifact blake3) := by
  refine Keeps.bind (keeps_loadChunkTree _) fun tree => ?_
  cases tree with
  | some _ => exact Keeps.pure _
  | none =>
    refine Keeps.bind_returns look_returns fun v => ?_
    rintro s ⟨hs, rfl⟩
    cases hfile : (Cas.blobPath blake3).toOption.bind fun key =>
        s.volume.files (.blob key) with
    | none => exact hs
    | some file =>
      cases hpath : Cas.blobPath blake3 with
      | error e =>
        rw [hpath] at hfile
        cases hfile
      | ok key =>
        rw [hpath] at hfile
        have hkey : key = contentKey D file := h.placed s hs (.blob key) file hfile
        have hlower : blake3.toAsciiLowercase = contentKey D file :=
          (blobPath_eq_ok hpath).symm.trans hkey
        unfold Crashing.storeChunkTree
        dsimp only
        rw [hlower]
        exact h.writeTree file file _ s hs

theorem keeps_finalizeBlob (h : Respects D C J) (artifact : Artifact) (m : BlobMeta) :
    Keeps J (Crashing.finalizeBlob D env artifact m) :=
  Keeps.bind (h.keeps_updateRows _) fun _ =>
    Keeps.bind (Keeps.whenever fun _ => h.keeps_updateRows _) fun _ =>
      Keeps.ite (Keeps.pure ()) (h.keeps_ensureChunkTree artifact m.blake3)

theorem keeps_indexBlob (h : Respects D C J) (artifact : Artifact) (m : BlobMeta) :
    Keeps J (Crashing.indexBlob D artifact m) :=
  Keeps.bind (h.keeps_updateRows _) fun _ => h.keeps_ensureChunkTree artifact m.blake3

theorem keeps_cachedChunkTree (artifact : Artifact) :
    Keeps J (Crashing.cachedChunkTree D artifact) := by
  unfold Crashing.cachedChunkTree
  cases artifact.chunking with
  | none => exact Keeps.pure _
  | some chunking =>
    refine Keeps.bind (keeps_loadChunkTree _) fun tree => ?_
    cases tree <;> exact Keeps.pure _

theorem keeps_downloadArtifact (h : Respects D C J) (manifestId : Text) (artifact : Artifact)
    (content : Bytes) :
    Keeps J (Crashing.downloadArtifact D C env manifestId artifact content) := by
  refine Keeps.bind (fun _ h => h) fun v => ?_
  cases cachedBlake3 (Crashing.view C v) artifact with
  | some blake3 => exact Keeps.bind (h.keeps_updateRows _) fun _ => Keeps.pure _
  | none =>
    refine Keeps.bind (keeps_cachedChunkTree artifact) fun _ =>
      Keeps.bind_returns (h.writeTemp _ content) fun _ => ?_
    cases hverify : verifyFile D content artifact.hashes artifact.sizeBytes artifact.path with
    | error e => exact fun _ h => h.1
    | ok hashes =>
      have hkey := ((verifyFile_spec D artifact content artifact.path).2 hashes hverify).1
      refine Triple.bind (h.commitBlob hkey) (fun m => ?_) (fun _ _ h => h) (fun _ h => h)
      exact Keeps.bind (h.keeps_finalizeBlob artifact m) fun _ => Keeps.pure _

theorem keeps_insertManifest (h : Respects D C J) (m : Manifest) :
    Keeps J (Crashing.insertManifest m) := by
  unfold Crashing.insertManifest
  cases m.validate with
  | error e => exact Keeps.throw _
  | ok _ => exact h.tables fun v => { v.tables with
      manifests :=
        v.tables.manifests.filter (fun m' => m'.manifestId ≠ m.manifestId) ++ [m] }

theorem keeps_importArtifactFile (h : Respects D C J) (manifestId artifactPath : Text)
    (file : Bytes) :
    Keeps J (Crashing.importArtifactFile D C env manifestId artifactPath file) := by
  refine Keeps.bind (fun _ h => h) fun v => ?_
  cases v.tables.manifests.find? fun m => m.manifestId = manifestId with
  | none => exact Keeps.throw _
  | some m =>
    dsimp only
    cases m.artifact artifactPath with
    | none => exact Keeps.throw _
    | some artifact =>
      refine Keeps.ite (Keeps.throw _) ?_
      cases artifact.hashes.mismatchAgainst (hashFile D file).1 with
      | some mismatch => exact Keeps.throw _
      | none =>
        exact Keeps.bind (h.keeps_importFile rfl) fun m =>
          Keeps.bind (h.keeps_indexBlob artifact m) fun _ => Keeps.pure _

theorem keeps_importLocalFile (h : Respects D C J) (file : Bytes) (manifest : Manifest) :
    Keeps J (Crashing.importLocalFile D C env file manifest) := by
  refine Keeps.bind (h.keeps_insertManifest _) fun _ =>
    Keeps.bind (h.keeps_importFile rfl) fun m => ?_
  split
  · exact Keeps.pure _
  · exact Keeps.bind (h.keeps_indexBlob _ m) fun _ => Keeps.pure _

theorem keeps_evict (h : Respects D C J) (blake3 : Text) :
    Keeps J (Crashing.evict C blake3) := by
  refine Keeps.bind (keeps_blobMeta _) fun _ =>
    Keeps.bind (Keeps.ofExcept_bind fun key _ => ?_) fun _ => h.keeps_updateRows _
  exact Keeps.bind (h.remove _) fun _ => Keeps.bind (h.remove _) fun _ => h.remove _

/-- **Every operation keeps what its steps keep.** -/
theorem keeps_op (h : Respects D C J) (op : StoreOp) : Keeps J (op.steps D C) := by
  cases op with
  | insertManifest m => exact h.keeps_insertManifest m
  | downloadArtifact env manifestId artifact content =>
    exact Keeps.bind (h.keeps_downloadArtifact manifestId artifact content) fun _ => Keeps.pure _
  | importArtifactFile env manifestId artifactPath file =>
    exact Keeps.bind (h.keeps_importArtifactFile manifestId artifactPath file) fun _ =>
      Keeps.pure _
  | importLocalFile env file manifest =>
    exact Keeps.bind (h.keeps_importLocalFile file manifest) fun _ => Keeps.pure _
  | evict blake3 => exact h.keeps_evict blake3

end Respects

/-! ## The two invariants -/

section Invariants

variable {D C}

/-- A published file was written elsewhere first. -/
theorem publish_placed {G : StoreFile → Bytes → Prop} {env : StoreEnv} {temp : Text}
    {file : Bytes} (hblob : G (.blob (contentKey D file)) file)
    (hincoming : ∀ key bytes, G (.incoming key) bytes) :
    Triple (On fun v => Everywhere G v ∧ v.files (.temp temp) = some file)
      (Crashing.publish env temp (contentKey D file) file) (fun _ => On (Everywhere G)) := by
  -- what is renamed to the place of the blob is the blob
  have hrename (name : StoreFile) :
      Triple (On fun v => Everywhere G v ∧ v.files name = some file)
        (rename name (.blob (contentKey D file)) : StoreSteps Unit)
        (fun _ => On (Everywhere G)) := by
    refine (atomically_returns (R := Everywhere G) (fun v hv => hv.1) fun v hv => ?_).post
      fun _ _ => Returns.inv
    have hpublished : ∀ bytes, v.files name = some bytes → G (.blob (contentKey D file)) bytes := by
      intro bytes hbytes
      rw [hv.2] at hbytes
      cases hbytes
      exact hblob
    exact ⟨hv.1.rename hpublished, hv.1.rename hpublished⟩
  have hwrite : Triple (On fun v => Everywhere G v ∧ v.files (.temp temp) = some file)
      (writeFile (.incoming (contentKey D file)) file : StoreSteps Unit)
      (Returns (On (Everywhere G)) fun _ =>
        On fun v => v.files (.incoming (contentKey D file)) = some file) :=
    writeFile_returns (fun v hv => hv.1) (fun v hv part _ => hv.1.write (hincoming _ part))
      fun v _ => Volume.set_files_self _ _ _
  refine Triple.ite (fun _ => hrename _) fun _ => ?_
  refine Triple.bind hwrite (fun _ => ?_) (fun _ _ h => h) fun _ h => h
  refine Triple.bind (R := fun _ => On (Everywhere G)) ?_ (fun _ => ?_) (fun _ _ h => h)
    fun _ h => h
  · exact hrename (.incoming (contentKey D file))
  · exact keeps_atomically fun v hv => hv.remove

/-- **Every step keeps every file under a name it may have.** -/
theorem respects_placed : Respects D C (On (Everywhere (Placed D))) where
  placed := fun _ h => h
  tables := fun _ => keeps_atomically fun _ h => h
  remove := fun _ => keeps_atomically fun _ h => h.remove
  writeTemp := fun _ _ => writeFile_returns (P := Everywhere (Placed D)) (fun _ => id)
    (fun _ h _ _ => h.write trivial) fun _ _ => Volume.set_files_self _ _ _
  cloneTemp := fun _ _ => atomically_returns (P := Everywhere (Placed D)) (fun _ => id)
    fun _ h => ⟨h.write trivial, Volume.set_files_self _ _ _⟩
  publish := fun _ _ _ => publish_placed rfl fun _ _ => trivial
  writeMeta := fun content _ _ => keeps_writeFile fun _ _ => ⟨content, rfl⟩
  writeTree := fun content _ _ => keeps_writeFile fun _ _ => ⟨content, rfl⟩

/-- A file is under a name it may have, and can be read if it is a sidecar. -/
def Whole (D : Digests) (C : MetaCodec) (name : StoreFile) (bytes : Bytes) : Prop :=
  Placed D name bytes ∧ Reads C name bytes

theorem alive_publish (env : StoreEnv) (temp key : Text) (file : Bytes) :
    Keeps (fun s => s.left = none) (Crashing.publish env temp key file) :=
  Keeps.ite (alive_atomically _) <|
    Keeps.bind (alive_writeFile _ _) fun _ =>
      Keeps.bind (alive_atomically _) fun _ => alive_atomically _

theorem unhurt_returns {α : Type} {P : StoreVolume → Prop} {R : α → StoreVolume → Prop}
    (r : Exit Error α) (s : Running StoreFile StoreTables)
    (h : s.left = none ∧ Returns (On P) (fun a => On (R a)) r s) :
    Returns (Unhurt P) (fun a => On (R a)) r s := by
  cases r with
  | ok a => exact ⟨⟨h.1, h.2.1⟩, h.2.2⟩
  | err e => exact h
  | crash => exact h

/-- **The steps of a process that does not die keep every sidecar readable.** -/
theorem respects_whole (hC : C.Correct) (hD : ∀ data, (D.blake3 data).length = 32) :
    Respects D C (Unhurt (Everywhere (Whole D C))) where
  placed := fun _ h name bytes hfile => (h.2 name bytes hfile).1
  tables := fun _ => unhurt_of (keeps_atomically fun _ h => h) (alive_atomically _)
  remove := fun _ => unhurt_of (keeps_atomically fun _ h => h.remove) (alive_atomically _)
  writeTemp := fun name bytes => by
    have hwrite : Triple (On (Everywhere (Whole D C)))
        (writeFile (.temp name) bytes : StoreSteps Unit)
        (Returns (On (Everywhere (Whole D C))) fun _ =>
          On fun v => v.files (.temp name) = some bytes) :=
      writeFile_returns (fun _ => id) (fun v h part _ => h.write ⟨trivial, trivial⟩)
        fun v _ => Volume.set_files_self _ _ _
    exact (unhurt_of hwrite (alive_writeFile _ _)).post unhurt_returns
  cloneTemp := fun name bytes => by
    have hclone : Triple (On (Everywhere (Whole D C)))
        (atomically (Volume.set (.temp name) (some bytes)) : StoreSteps Unit)
        (Returns (On (Everywhere (Whole D C))) fun _ =>
          On fun v => v.files (.temp name) = some bytes) :=
      atomically_returns (fun _ => id)
        fun v h => ⟨h.write ⟨trivial, trivial⟩, Volume.set_files_self _ _ _⟩
    exact (unhurt_of hclone (alive_atomically _)).post unhurt_returns
  publish := fun env temp file => by
    refine (unhurt_of (publish_placed (G := Whole D C) ⟨rfl, trivial⟩
      fun _ _ => ⟨trivial, trivial⟩) (alive_publish env temp _ file)).conseq
        (fun _ h => ⟨h.1.1, h.1.2, h.2⟩) fun _ _ h => h
  writeMeta := fun content m now =>
    keeps_writeFile_whole ⟨⟨content, rfl⟩, m, hC m now⟩
  writeTree := fun content file leafSize =>
    keeps_writeFile_whole ⟨⟨content, rfl⟩, _, ChunkTree.fromBytes_fromFile hD file leafSize⟩

end Invariants

/-! ## Operations that come to their end -/

section Completing

open Crashing

variable {D C} {env : StoreEnv} {v : StoreVolume}

/-- The key of a content names its files. -/
theorem blobPath_contentKey (hD : ∀ data, (D.blake3 data).length = 32) (content : Bytes) :
    Cas.blobPath (contentKey D content) = .ok (contentKey D content) := by
  unfold Cas.blobPath
  rw [if_neg]
  · exact congrArg Except.ok (toAsciiLowercase_hexEncode _)
  · unfold contentKey
    rw [utf8Len_hexEncode, all_isAsciiHexdigit_hexEncode, hD]
    decide

theorem writeMeta_bind_iff {m : BlobMeta} {key : Text}
    (hpath : Cas.blobPath m.blake3 = .ok key) {f : Unit → StoreSteps BlobMeta}
    {S : BlobMeta → StoreVolume → Prop} :
    Completes (Crashing.writeMeta C env m >>= f) v S ↔
      Completes (f ()) (v.set (.metaJson key) (some (C.encode m env.now))) S := by
  refine Completes.bind_iff ?_
  unfold Crashing.writeMeta
  rw [bind_apply, hpath, ofExcept_ok, andThen_ok, writeFile_whole]

/-- Metadata is read exactly if it is not there or can be read. -/
theorem completes_blobMeta {blake3 key : Text} (hpath : Cas.blobPath blake3 = .ok key) :
    Completes (Crashing.blobMeta C blake3) v (fun _ v' => v' = v) ↔
      ∀ bytes, v.files (.metaJson key) = some bytes → ∃ m, C.decode bytes = .ok m := by
  unfold Crashing.blobMeta
  rw [Completes.ofExcept_bind_iff hpath, Completes.look_bind_iff]
  cases v.files (.metaJson key) with
  | none => simp
  | some bytes => cases hdecode : C.decode bytes <;> simp [hdecode]

/-- And so is a chunk tree. -/
theorem completes_loadChunkTree (blake3 : Text) :
    Completes (Crashing.loadChunkTree blake3) v (fun _ v' => v' = v) ↔
      ∀ bytes, v.files (.chunkTree blake3.toAsciiLowercase) = some bytes →
        ∃ tree, ChunkTree.fromBytes bytes = .ok tree := by
  unfold Crashing.loadChunkTree
  rw [Completes.look_bind_iff]
  cases v.files (.chunkTree blake3.toAsciiLowercase) with
  | none => simp
  | some bytes => cases hparse : ChunkTree.fromBytes bytes <;> simp [hparse]

/-- **A blob can be evicted exactly if its metadata is not there or can be read.** -/
theorem completes_evict {blake3 key : Text} (hpath : Cas.blobPath blake3 = .ok key) :
    Completes (Crashing.evict C blake3) v (fun _ _ => True) ↔
      ∀ bytes, v.files (.metaJson key) = some bytes → ∃ m, C.decode bytes = .ok m := by
  rw [← completes_blobMeta hpath]
  constructor
  · exact fun h => h.of_bind (Respects.keeps_blobMeta (J := (· = ⟨v, none⟩)) blake3 _ rfl)
  · intro h
    refine h.bind fun _ v' _ => ?_
    refine Completes.bind (R := fun _ _ => True) ?_ fun _ _ _ => Completes.atomically_iff.mpr trivial
    unfold Crashing.removeBlob
    rw [Completes.ofExcept_bind_iff hpath]
    exact Completes.atomically_bind_iff.mpr
      (Completes.atomically_bind_iff.mpr (Completes.atomically_iff.mpr trivial))

/-- **A blob gets its chunk tree exactly if none is there or it can be read.** -/
theorem completes_ensureChunkTree (artifact : Artifact) (blake3 : Text) :
    Completes (Crashing.ensureChunkTree D artifact blake3) v (fun _ _ => True) ↔
      ∀ bytes, v.files (.chunkTree blake3.toAsciiLowercase) = some bytes →
        ∃ tree, ChunkTree.fromBytes bytes = .ok tree := by
  rw [← completes_loadChunkTree]
  constructor
  · exact fun h => h.of_bind (Respects.keeps_loadChunkTree (J := (· = ⟨v, none⟩)) blake3 _ rfl)
  · intro h
    refine h.bind fun tree v' _ => ?_
    cases tree with
    | some _ => exact Completes.pure_iff.mpr trivial
    | none =>
      refine Completes.look_bind_iff.mpr ?_
      split
      · exact Completes.pure_iff.mpr trivial
      · exact Completes.writeFile_iff.mpr trivial

theorem completes_publish {temp key : Text} {file : Bytes} :
    Completes (Crashing.publish env temp key file) v fun _ v' =>
      ∀ k, v'.files (.chunkTree k) = v.files (.chunkTree k) := by
  unfold Crashing.publish
  split
  · refine Completes.atomically_iff.mpr fun k => ?_
    simp
  · refine Completes.writeFile_bind_iff.mpr (Completes.atomically_bind_iff.mpr
      (Completes.atomically_iff.mpr fun k => ?_))
    simp

/-- A blob that is not in the store is committed, and no chunk tree is touched. -/
theorem completes_commitBlob_fresh {temp key : Text} {hashes : Hashes} {size : ℕ}
    {file : Bytes} (hpath : Cas.blobPath hashes.blake3 = .ok key)
    (hblob : v.files (.blob key) = none) (htemp : v.files (.temp temp) = some file) :
    Completes (Crashing.commitBlob C env temp hashes size) v fun m v' =>
      m.blake3 = hashes.blake3 ∧ ∀ k, v'.files (.chunkTree k) = v.files (.chunkTree k) := by
  unfold Crashing.commitBlob
  rw [Completes.ofExcept_bind_iff hpath, Completes.look_bind_iff, hblob]
  dsimp only
  rw [htemp]
  refine completes_publish.bind fun _ v' htrees => ?_
  refine (writeMeta_bind_iff hpath).mpr (Completes.pure_iff.mpr ⟨rfl, fun k => ?_⟩)
  rw [Volume.set_files_of_ne StoreFile.noConfusion]
  exact htrees k

/-- A blob that is in the store is found there if its metadata can be read. -/
theorem completes_commitBlob {temp key : Text} {hashes : Hashes} {size : ℕ} {file : Bytes}
    (hpath : Cas.blobPath hashes.blake3 = .ok key)
    (htemp : v.files (.temp temp) = some file)
    (hread : ∀ bytes, v.files (.metaJson key) = some bytes → ∃ m, C.decode bytes = .ok m) :
    Completes (Crashing.commitBlob C env temp hashes size) v (fun _ _ => True) := by
  cases hblob : v.files (.blob key) with
  | none => exact (completes_commitBlob_fresh hpath hblob htemp).mono fun _ _ _ => trivial
  | some _ =>
    unfold Crashing.commitBlob
    rw [Completes.ofExcept_bind_iff hpath, Completes.look_bind_iff, hblob]
    refine Completes.atomically_bind_iff.mpr ?_
    have hmeta : Completes (Crashing.blobMeta C hashes.blake3) (v.set (.temp temp) none)
        (fun _ v' => v' = v.set (.temp temp) none) :=
      (completes_blobMeta hpath).mpr fun bytes hbytes => hread bytes (by simpa using hbytes)
    refine hmeta.bind fun existing v' _ => ?_
    cases existing with
    | some m => exact Completes.pure_iff.mpr trivial
    | none =>
      exact (writeMeta_bind_iff hpath).mpr (Completes.pure_iff.mpr trivial)

theorem completes_reflinkOrCopy (name : StoreFile) (file : Bytes) :
    Completes (Crashing.reflinkOrCopy env name file) v fun _ v' =>
      v' = v.set name (some file) := by
  refine Completes.look_bind_iff.mpr ?_
  split
  · exact Completes.atomically_iff.mpr rfl
  · exact Completes.writeFile_iff.mpr rfl

/-- **A file can always be imported**, under its own hash, and no chunk tree is touched. -/
theorem completes_importFile {hashes : Hashes} {size : ℕ} {file : Bytes} {key : Text}
    (hpath : Cas.blobPath hashes.blake3 = .ok key) :
    Completes (Crashing.importFile C env file hashes size) v fun m v' =>
      m.blake3 = hashes.blake3 ∧ ∀ k, v'.files (.chunkTree k) = v.files (.chunkTree k) := by
  refine Completes.look_bind_iff.mpr ?_
  by_cases hblob : Cas.hasBlob (Crashing.view C v) hashes.blake3 = true
  · rw [if_pos hblob]
    refine (writeMeta_bind_iff hpath).mpr (Completes.pure_iff.mpr ⟨rfl, fun k => ?_⟩)
    rw [Volume.set_files_of_ne StoreFile.noConfusion]
  · rw [if_neg hblob]
    refine (completes_reflinkOrCopy _ file).bind fun _ v' hv' => ?_
    subst hv'
    have hnone : v.files (.blob key) = none := by
      unfold Cas.hasBlob at hblob
      rw [hpath] at hblob
      exact Option.not_isSome_iff_eq_none.mp hblob
    refine (completes_commitBlob_fresh hpath ?_ (Volume.set_files_self _ _ _)).mono
      fun m v' h => ⟨h.1, fun k => (h.2 k).trans ?_⟩
    · rw [Volume.set_files_of_ne StoreFile.noConfusion]
      exact hnone
    · exact Volume.set_files_of_ne StoreFile.noConfusion _ _

/-- What is imported is indexed exactly if no chunk tree is there or it can be read. -/
theorem completes_index (artifact : Artifact) {hashes : Hashes} {size : ℕ} {file : Bytes}
    (hD : ∀ data, (D.blake3 data).length = 32) (hhashes : hashes.blake3 = contentKey D file) :
    Completes (do
        let m ← Crashing.importFile C env file hashes size
        Crashing.indexBlob D artifact m
        pure m : StoreSteps BlobMeta) v (fun _ _ => True) ↔
      ∀ bytes, v.files (.chunkTree (contentKey D file)) = some bytes →
        ∃ tree, ChunkTree.fromBytes bytes = .ok tree := by
  have hpath : Cas.blobPath hashes.blake3 = .ok (contentKey D file) := by
    rw [hhashes]
    exact blobPath_contentKey hD file
  have himported : Completes (Crashing.importFile C env file hashes size) v fun m v' =>
      m.blake3 = hashes.blake3 ∧ ∀ k, v'.files (.chunkTree k) = v.files (.chunkTree k) :=
    completes_importFile hpath
  obtain ⟨m, v', hrun, hm, htrees⟩ := himported
  have hlower : m.blake3.toAsciiLowercase = contentKey D file := by
    rw [hm]
    exact (blobPath_eq_ok hpath).symm
  rw [Completes.bind_iff hrun, Completes.bind_pure_iff]
  unfold Crashing.indexBlob
  rw [show Crashing.updateRows (Db.upsertCacheBlob m) =
      atomically _ from rfl, Completes.atomically_bind_iff, completes_ensureChunkTree, hlower]
  show (∀ bytes, v'.files (.chunkTree (contentKey D file)) = some bytes → _) ↔ _
  rw [htrees]

/-- The index is not where sidecars are. -/
theorem updateRows_bind_iff {α : Type} {f : List CacheBlob → List CacheBlob}
    {g : Unit → StoreSteps α} {S : α → StoreVolume → Prop} :
    Completes (Crashing.updateRows f >>= g) v S ↔
      Completes (g ()) { v with tables := { v.tables with rows := f v.tables.rows } } S :=
  Completes.atomically_bind_iff

theorem completes_finalizeBlob (artifact : Artifact) (m : BlobMeta)
    (hread : ∀ bytes, v.files (.chunkTree m.blake3.toAsciiLowercase) = some bytes →
      ∃ tree, ChunkTree.fromBytes bytes = .ok tree) :
    Completes (Crashing.finalizeBlob D env artifact m) v (fun _ _ => True) := by
  have hlast (w : StoreVolume) (hw : w.files = v.files) : Completes
      (if env.cancelled then pure () else Crashing.ensureChunkTree D artifact m.blake3 :
        StoreSteps Unit) w (fun _ _ => True) := by
    split
    · exact Completes.pure_iff.mpr trivial
    · refine (completes_ensureChunkTree artifact m.blake3).mpr ?_
      rw [hw]
      exact hread
  unfold Crashing.finalizeBlob
  refine updateRows_bind_iff.mpr ?_
  cases artifact.hashes.hasGitBlobSha1 with
  | true => exact updateRows_bind_iff.mpr (hlast _ rfl)
  | false => exact hlast _ rfl

/-- **A download comes to its end where every sidecar can be read**, if the source serves
what the artifact describes. -/
theorem completes_downloadArtifact (hC : C.Correct)
    (hD : ∀ data, (D.blake3 data).length = 32) (h : Everywhere (Whole D C) v)
    (manifestId : Text) {artifact : Artifact} {content : Bytes}
    (hdescribes : artifact.Describes D content) :
    Completes (Crashing.downloadArtifact D C env manifestId artifact content) v
      (fun _ _ => True) := by
  have hrespects := respects_whole hC hD
  have htree (w : StoreVolume) (hw : Everywhere (Whole D C) w) (key : Text) :
      ∀ bytes, w.files (.chunkTree key) = some bytes →
        ∃ tree, ChunkTree.fromBytes bytes = .ok tree :=
    fun bytes hbytes => (hw _ bytes hbytes).2
  refine Completes.look_bind_iff.mpr ?_
  cases cachedBlake3 (Crashing.view C v) artifact with
  | some blake3 => exact Completes.atomically_bind_iff.mpr (Completes.pure_iff.mpr trivial)
  | none =>
    have hcached : Completes (Crashing.cachedChunkTree D artifact) v (fun _ v' => v' = v) := by
      unfold Crashing.cachedChunkTree
      cases artifact.chunking with
      | none => exact Completes.pure_iff.mpr rfl
      | some chunking =>
        refine ((completes_loadChunkTree _).mpr (htree v h _)).bind fun tree v' hv' => ?_
        cases tree <;> exact Completes.pure_iff.mpr hv'
    refine hcached.bind fun _ v' hv' => ?_
    subst hv'
    refine Completes.writeFile_bind_iff.mpr ?_
    obtain ⟨⟨hashes, hverify⟩, hhashes⟩ :=
      (verifyFile_spec D artifact content artifact.path).imp_left fun hiff => hiff.mpr hdescribes
    have hkey : hashes.blake3 = contentKey D content := (hhashes hashes hverify).1
    have hpath : Cas.blobPath hashes.blake3 = .ok (contentKey D content) := by
      rw [hkey]
      exact blobPath_contentKey hD content
    rw [hverify]
    generalize Cas.newTempPath _ _ = temp
    have hw : Everywhere (Whole D C) (v'.set (.temp temp) (some content)) :=
      h.write ⟨trivial, trivial⟩
    have hcommit : Completes (Crashing.commitBlob C env temp hashes content.length)
        (v'.set (.temp temp) (some content)) fun _ _ => True :=
      completes_commitBlob hpath (Volume.set_files_self _ _ _) fun bytes hbytes =>
        (hw _ bytes hbytes).2
    -- the commit completes and leaves every file whole, which the index step needs
    have hkept := hcommit.and_leaves
      (P := fun w => Everywhere (Whole D C) w ∧ w.files (.temp temp) = some content)
      ((hrespects.commitBlob hkey).conseq (fun _ hs => ⟨⟨hs.1, hs.2.1⟩, hs.2.2⟩) fun _ _ hs => hs)
      ⟨hw, Volume.set_files_self _ _ _⟩
    refine hkept.bind fun m w hw' => Completes.bind_pure_iff.mpr ?_
    have hfinal : Everywhere (Whole D C) w := hw'.2
    refine completes_finalizeBlob artifact m fun bytes hbytes => ?_
    exact (hfinal _ bytes hbytes).2

end Completing

/-! ## What later operations can do -/

/-- **Later operations on a content succeed**: downloads of an artifact it is, from a source
that serves it, imports of it, and evictions. -/
structure Recoverable (v : StoreVolume) : Prop where
  download : ∀ env manifestId (artifact : Artifact) content, artifact.Describes D content →
    Completes (Crashing.downloadArtifact D C env manifestId artifact content) v
      (fun _ _ => True)
  importLocal : ∀ env file (manifest : Manifest),
    Manifest.validate { manifest with
      artifacts := fillFirstBlake3 (contentKey D file) manifest.artifacts } = .ok () →
    Completes (Crashing.importLocalFile D C env file manifest) v (fun _ _ => True)
  /-- An artifact of a stored manifest is imported from a file that has its size and its
  digests, if it declares no git blob OID. -/
  importArtifact : ∀ env manifestId path file m artifact,
    v.tables.manifests.find? (fun m => m.manifestId = manifestId) = some m →
    m.artifact path = some artifact → artifact.sizeBytes = file.length →
    artifact.hashes.Match D file → artifact.hashes.hasGitBlobSha1 = false →
    Completes (Crashing.importArtifactFile D C env manifestId path file) v (fun _ _ => True)
  evict : ∀ content, Completes (Crashing.evict C (contentKey D content)) v (fun _ _ => True)

/-- An artifact that declares a BLAKE3 only, as importing a local file without a manifest
makes it. -/
def localArtifact (key : Text) : Artifact where
  path := "model.bin".toList
  sizeBytes := 0
  hashes := ⟨key, [], []⟩
  chunking := none
  sources := []

/-- A manifest of it, as it is synthesized for a local import. -/
def localManifest (key : Text) : Manifest where
  schemaVersion := SCHEMA_VERSION
  manifestId := "local".toList
  publisherId := "local".toList
  access := ⟨false, false, []⟩
  artifacts := [localArtifact key]

variable {D C}

/-- The key of a content is no absent digest. -/
theorem hasBlake3_contentKey (hD : ∀ data, (D.blake3 data).length = 32) (content : Bytes) :
    (localArtifact (contentKey D content)).hashes.hasBlake3 = true := by
  have hlen : (contentKey D content).length = 64 := by
    unfold contentKey
    rw [length_hexEncode, hD]
  unfold Hashes.hasBlake3 localArtifact
  cases hkey : contentKey D content with
  | nil =>
    rw [hkey] at hlen
    cases hlen
  | cons c key => rfl

theorem localArtifact_valid {key : Text} (hblake3 : (localArtifact key).hashes.hasBlake3 = true)
    (hdigest : validateHexDigest "blake3".toList key = .ok ()) :
    validateArtifact (localArtifact key) = .ok () := by
  have hpath : validateArtifactPath (localArtifact key).path = .ok () := by
    show validateArtifactPath "model.bin".toList = .ok ()
    decide
  have hdigest' : validateHexDigest "blake3".toList (localArtifact key).hashes.blake3 = .ok () :=
    hdigest
  unfold validateArtifact
  rw [hpath, hblake3, hdigest']
  rfl

theorem localManifest_valid {key : Text} (h : validateArtifact (localArtifact key) = .ok ()) :
    (localManifest key).validate = .ok () := by
  have hid : validateManifestId (localManifest key).manifestId = .ok () := by
    show validateManifestId "local".toList = .ok ()
    decide
  have hloop : (localManifest key).artifacts.forM validateArtifact = .ok () := by
    show (validateArtifact (localArtifact key) >>= fun _ => pure ()) = .ok ()
    rw [h]
    rfl
  unfold Manifest.validate
  rw [hid, hloop]
  rfl

/-- Every content can be imported under some manifest, which is imported as it is. -/
theorem localManifest_contentKey (hD : ∀ data, (D.blake3 data).length = 32) (content : Bytes) :
    Manifest.validate { localManifest (contentKey D content) with
      artifacts := fillFirstBlake3 (contentKey D content)
        (localManifest (contentKey D content)).artifacts } = .ok () := by
  have hfill : fillFirstBlake3 (contentKey D content)
      (localManifest (contentKey D content)).artifacts =
        (localManifest (contentKey D content)).artifacts := by
    show (if (localArtifact (contentKey D content)).hashes.hasBlake3 = true then _ else _) :: [] =
      [localArtifact (contentKey D content)]
    rw [if_pos (hasBlake3_contentKey hD content)]
  rw [hfill]
  refine localManifest_valid (localArtifact_valid (hasBlake3_contentKey hD content) ?_)
  refine validateHexDigestLen_iff.mpr ⟨?_, all_isAsciiHexdigit_hexEncode _⟩
  unfold contentKey
  rw [utf8Len_hexEncode, hD]

/-- A local import succeeds exactly if no chunk tree is there or it can be read. -/
theorem completes_importLocalFile (hD : ∀ data, (D.blake3 data).length = 32) {env : StoreEnv}
    {v : StoreVolume} {file : Bytes} {manifest : Manifest}
    (hvalid : Manifest.validate { manifest with
      artifacts := fillFirstBlake3 (contentKey D file) manifest.artifacts } = .ok ())
    {art : Artifact} {arts : List Artifact}
    (hfill : fillFirstBlake3 (contentKey D file) manifest.artifacts = art :: arts) :
    Completes (Crashing.importLocalFile D C env file manifest) v (fun _ _ => True) ↔
      ∀ bytes, v.files (.chunkTree (contentKey D file)) = some bytes →
        ∃ tree, ChunkTree.fromBytes bytes = .ok tree := by
  unfold Crashing.importLocalFile Crashing.insertManifest
  have hhash : (hashFile D file).1.blake3 = contentKey D file := rfl
  dsimp only
  rw [hhash, hvalid, Completes.atomically_bind_iff, hfill]
  exact completes_index art hD hhash

/-- **Later operations succeed exactly if every sidecar can be read.** -/
theorem recoverable_iff (hC : C.Correct) (hD : ∀ data, (D.blake3 data).length = 32)
    {v : StoreVolume} (h : Everywhere (Placed D) v) :
    Recoverable D C v ↔ Everywhere (Reads C) v := by
  constructor
  · intro hrec name bytes hfile
    -- a cut metadata file is met by the eviction of its blob, a cut chunk tree by the import of the
    -- same content; the other files have no format to break
    cases name with
    | blob key => trivial
    | incoming key => trivial
    | temp name => trivial
    | metaJson key =>
      obtain ⟨content, rfl⟩ := h _ bytes hfile
      exact (completes_evict (blobPath_contentKey hD content)).mp (hrec.evict content) bytes hfile
    | chunkTree key =>
      obtain ⟨content, rfl⟩ := h _ bytes hfile
      have himport := hrec.importLocal ⟨[], false, true, false⟩ content _
        (localManifest_contentKey hD content)
      exact (completes_importLocalFile hD (localManifest_contentKey hD content) rfl).mp
        himport bytes hfile
  · intro hreads
    -- every file reads back, so each of the four operations runs to its end
    have hwhole : Everywhere (Whole D C) v := fun name bytes hfile =>
      ⟨h name bytes hfile, hreads name bytes hfile⟩
    refine ⟨fun env manifestId artifact content => ?_, fun env file manifest hvalid => ?_,
      fun env manifestId path file m artifact hm ha hsize hmatch hgit => ?_, fun content => ?_⟩
    · exact completes_downloadArtifact hC hD hwhole manifestId
    · cases hfill : fillFirstBlake3 (contentKey D file) manifest.artifacts with
      | nil =>
        rw [hfill] at hvalid
        have himport : importManifest { manifest with artifacts := [] } Disk.empty =
            (.ok (), (importManifest { manifest with artifacts := [] } Disk.empty).2) := by
          unfold importManifest
          rw [hvalid]
          rfl
        exact absurd rfl (importManifest_artifacts himport)
      | cons art arts =>
        exact (completes_importLocalFile hD hvalid hfill).mpr fun bytes hbytes =>
          hreads _ bytes hbytes
    · have hpass : artifact.hashes.mismatchAgainst (hashFile D file).1 = none :=
        Hashes.mismatchAgainst_eq_none_iff.mpr ⟨hmatch.blake3, hmatch.sha256,
          fun hd => absurd (hgit.symm.trans hd) Bool.false_ne_true⟩
      have hlen : (hashFile D file).2 = artifact.sizeBytes :=
        (Nat.zero_add file.length).trans hsize.symm
      refine Completes.look_bind_iff.mpr ?_
      rw [hm]
      dsimp only
      rw [ha]
      dsimp only
      rw [if_neg (not_not.mpr hlen), hpass]
      exact (completes_index artifact hD rfl).mpr fun bytes hbytes => hreads _ bytes hbytes
    · exact (completes_evict (blobPath_contentKey hD content)).mpr fun bytes hbytes =>
        hreads _ bytes hbytes

/-! ## Histories -/

/-- **An operation is cut short of no sidecar**: the process does not die, or every sidecar
that it leaves other than it was can be read. -/
def Uncut (D : Digests) (C : MetaCodec) (v : StoreVolume) (e : StoreEvent) : Prop :=
  e.left = none ∨ ∀ name bytes, (StoreVolume.step D C v e).files name = some bytes →
    v.files name ≠ some bytes → Reads C name bytes

/-- Every operation leaves every file under a name it may have. -/
theorem placed_step {v : StoreVolume} (h : Everywhere (Placed D) v) (e : StoreEvent) :
    Everywhere (Placed D) (StoreVolume.step D C v e) :=
  (respects_placed (C := C)).keeps_op e.op ⟨v, e.left⟩ h

/-- An operation that is cut short of no sidecar leaves every sidecar readable. -/
theorem reads_step (hC : C.Correct) (hD : ∀ data, (D.blake3 data).length = 32)
    {v : StoreVolume} {e : StoreEvent} (h : Everywhere (Whole D C) v) (huncut : Uncut D C v e) :
    Everywhere (Whole D C) (StoreVolume.step D C v e) := by
  obtain hnone | hreads := huncut
  · have hkept := (respects_whole hC hD).keeps_op e.op ⟨v, e.left⟩ ⟨hnone, h⟩
    exact hkept.2
  · intro name bytes hfile
    refine ⟨placed_step (C := C) (fun name bytes h' => (h name bytes h').1) e name bytes hfile, ?_⟩
    by_cases hsame : v.files name = some bytes
    · exact (h name bytes hsame).2
    · exact hreads name bytes hfile hsame

/-- **Commits and crashes.** After every history of imports, downloads and evictions, each
run to its end or to a crash after any of its steps: every file at the place of a blob is
the content its name is the hash of; and later operations succeed exactly if every sidecar
can be read. They do after every history in which no crash cut a sidecar short. -/
theorem commits_crash_consistent (hC : C.Correct) (hD : ∀ data, (D.blake3 data).length = 32)
    (history : List StoreEvent) :
    (∀ key bytes,
      (history.foldl (StoreVolume.step D C) StoreVolume.empty).files (.blob key) = some bytes →
        key = hexEncode (D.blake3 bytes)) ∧
      (Recoverable D C (history.foldl (StoreVolume.step D C) StoreVolume.empty) ↔
        Everywhere (Reads C) (history.foldl (StoreVolume.step D C) StoreVolume.empty)) ∧
      (Transition.Along (StoreVolume.step D C) (Uncut D C) history StoreVolume.empty →
        Recoverable D C (history.foldl (StoreVolume.step D C) StoreVolume.empty)) := by
  have hempty (G : StoreFile → Bytes → Prop) : Everywhere G StoreVolume.empty := by
    intro name bytes hfile
    cases hfile
  have hplaced : Everywhere (Placed D)
      (history.foldl (StoreVolume.step D C) StoreVolume.empty) :=
    List.foldlRecOn history _ (hempty _) fun v h e _ => placed_step h e
  refine ⟨fun key bytes hfile => hplaced _ bytes hfile, recoverable_iff hC hD hplaced,
    fun huncut => (recoverable_iff hC hD hplaced).mpr ?_⟩
  have hwhole : Everywhere (Whole D C)
      (history.foldl (StoreVolume.step D C) StoreVolume.empty) :=
    Transition.Along.invariant (fun v e h he => reads_step hC hD h he) (hempty _) huncut
  exact fun name bytes hfile => (hwhole name bytes hfile).2

/-! ## A store to look at -/

/-- The digests of `abc` and of its only leaf; 32 zero bytes for anything else. -/
def shortDigests : Digests where
  blake3 := fun data => if data = abc ∨ data = 0x00 :: abc then sampleDigests.blake3 data
    else List.replicate 32 0
  sha256 := sampleDigests.sha256
  sha1 := sampleDigests.sha1

theorem shortDigests_length (data : Bytes) : (shortDigests.blake3 data).length = 32 := by
  show (if data = abc ∨ data = 0x00 :: abc then sampleDigests.blake3 data
    else List.replicate 32 0).length = 32
  split
  · rename_i h
    obtain rfl | rfl := h <;> decide +kernel
  · exact List.length_replicate

/-- The metadata of `abc`, as its commit writes it down. -/
def abcMeta : BlobMeta :=
  ⟨(hashBytes shortDigests abc).blake3, (hashBytes shortDigests abc).sha256, 3⟩

/-- Its JSON, up to the time of the commit, with the digests in it. -/
def abcMetaHead : Text :=
  "\x7b\n  \"blake3\": \"".toList ++ abcMeta.blake3 ++ "\",\n  \"sha256\": \"".toList ++
    abcMeta.sha256 ++ "\",\n  \"size_bytes\": 3,\n  \"committed_at\": \"".toList

/-- And what follows the time: the closing quote, a line break and the closing brace. -/
def metaTail : Text := "\"\n\x7d".toList

/-- Characters by their code point, so that the example's codec can number what it stores. -/
instance encodableChar : Encodable Char :=
  Encodable.ofLeftInjection Char.toNat (fun n => some (Char.ofNat n)) fun c =>
    congrArg some (Char.ofNat_toNat c)

/-- Metadata by number: the two digests and the size, one after another. -/
instance encodableBlobMeta : Encodable BlobMeta :=
  Encodable.ofLeftInjection (fun m => (m.blake3, m.sha256, m.sizeBytes))
    (fun x : List Char × List Char × ℕ => some ⟨x.1, x.2.1, x.2.2⟩) fun _ => rfl

/-- The metadata of `abc` in JSON, and zeros for any other, which no text of a time can be
mistaken for. -/
def sampleEncode (m : BlobMeta) (now : Text) : Bytes :=
  if m = abcMeta then abcMetaHead.utf8 ++ now.utf8 ++ metaTail.utf8
  else 0 :: List.replicate (Encodable.encode m) 0

/-- Reading back what `sampleEncode` wrote. A text that was cut off is an error, as it is
for a JSON parser. -/
def sampleDecode (bytes : Bytes) : Except Text BlobMeta :=
  if abcMetaHead.utf8.isPrefixOf bytes && metaTail.utf8.isSuffixOf bytes then .ok abcMeta
  else if bytes.head? = some 0 then
    match (Encodable.decode (bytes.length - 1) : Option BlobMeta) with
    | some m => .ok m
    | none => .error "expected value".toList
  else .error "EOF while parsing".toList

/-- The two together: what is written whole is read back. -/
def sampleCodec : MetaCodec := ⟨sampleEncode, sampleDecode⟩

theorem sampleCodec_correct : sampleCodec.Correct := by
  intro m now
  show sampleDecode (sampleEncode m now) = .ok m
  unfold sampleEncode
  by_cases hm : m = abcMeta
  · rw [if_pos hm]
    have hhead : abcMetaHead.utf8.isPrefixOf (abcMetaHead.utf8 ++ now.utf8 ++ metaTail.utf8) =
        true := by
      rw [List.append_assoc]
      exact List.isPrefixOf_iff_prefix.mpr (List.prefix_append _ _)
    have htail : metaTail.utf8.isSuffixOf (abcMetaHead.utf8 ++ now.utf8 ++ metaTail.utf8) =
        true :=
      List.isSuffixOf_iff_suffix.mpr (List.suffix_append _ _)
    unfold sampleDecode
    rw [hhead, htail, hm]
    exact if_pos rfl
  · rw [if_neg hm]
    have hhead : abcMetaHead.utf8.isPrefixOf (0 :: List.replicate (Encodable.encode m) 0) =
        false := rfl
    have hlen : (0 :: List.replicate (Encodable.encode m) (0 : UInt8)).length - 1 =
        Encodable.encode m := by
      rw [List.length_cons, List.length_replicate]
      rfl
    unfold sampleDecode
    rw [hhead, hlen, Encodable.encodek]
    rfl

/-- A file system that cannot clone files, so that every import copies; its renames succeed. -/
def plainDisk : StoreEnv := ⟨"2026-01-01T00:00:00Z".toList, false, true, false⟩

/-- The file `abc` is imported under its own key, on a file system without clones. -/
def importAbc : StoreOp :=
  .importLocalFile plainDisk abc (localManifest (contentKey shortDigests abc))

/-- A process that dies at once imports nothing. -/
theorem step_importLocalFile_dead (v : StoreVolume) (env : StoreEnv) (file : Bytes)
    (manifest : Manifest) :
    StoreVolume.step D C v ⟨.importLocalFile env file manifest, some 0⟩ = v := by
  unfold StoreVolume.step
  show ((Crashing.importLocalFile D C env file manifest >>= fun _ => pure ())
    ⟨v, some 0⟩).2.volume = v
  unfold Crashing.importLocalFile Crashing.insertManifest
  dsimp only
  cases Manifest.validate { manifest with
    artifacts := fillFirstBlake3 (hashFile D file).1.blake3 manifest.artifacts } <;> rfl

/-- `abc` is imported, imported again by a process that dies at once, evicted, and imported. -/
def quietHistory : List StoreEvent :=
  [⟨importAbc, none⟩, ⟨importAbc, some 0⟩, ⟨.evict (contentKey shortDigests abc), none⟩,
    ⟨importAbc, none⟩]

theorem quietHistory_uncut (v : StoreVolume) :
    Transition.Along (StoreVolume.step shortDigests sampleCodec)
      (Uncut shortDigests sampleCodec) quietHistory v := by
  refine And.intro (Or.inl rfl) (And.intro (Or.inr fun name bytes hfile hnew => ?_)
    (And.intro (Or.inl rfl) (And.intro (Or.inl rfl) trivial)))
  generalize StoreVolume.step shortDigests sampleCodec v ⟨importAbc, none⟩ = v' at hfile hnew
  have hsame : StoreVolume.step shortDigests sampleCodec v' ⟨importAbc, some 0⟩ = v' :=
    step_importLocalFile_dead v' _ _ _
  rw [hsame] at hfile
  exact absurd hfile hnew

theorem quietHistory_recoverable : Recoverable shortDigests sampleCodec
    (quietHistory.foldl (StoreVolume.step shortDigests sampleCodec) StoreVolume.empty) :=
  (commits_crash_consistent sampleCodec_correct shortDigests_length quietHistory).2.2
    (quietHistory_uncut _)

/-- `abc` is imported, and the process dies when its chunk tree was cut to nothing. -/
def cutShort : StoreEvent :=
  ⟨importAbc,
    some (1 + (1 + 3) + 1 + (1 + (sampleCodec.encode abcMeta plainDisk.now).length) + 1 + 1)⟩

/-- **A chunk tree that was cut short.** The blob is good, but the content can neither be
downloaded nor imported again. -/
theorem chunkTree_cut_short :
    (StoreVolume.step shortDigests sampleCodec StoreVolume.empty cutShort).files
        (.blob (contentKey shortDigests abc)) = some abc ∧
      ¬ Recoverable shortDigests sampleCodec
        (StoreVolume.step shortDigests sampleCodec StoreVolume.empty cutShort) := by
  refine ⟨by decide +kernel, fun hrec => ?_⟩
  have hplaced : Everywhere (Placed shortDigests)
      (StoreVolume.step shortDigests sampleCodec StoreVolume.empty cutShort) :=
    placed_step (fun _ _ hfile => absurd hfile.symm (Option.some_ne_none _)) cutShort
  have hcut : (StoreVolume.step shortDigests sampleCodec StoreVolume.empty cutShort).files
      (.chunkTree (contentKey shortDigests abc)) = some [] := by
    decide +kernel
  obtain ⟨tree, htree⟩ :=
    (recoverable_iff sampleCodec_correct shortDigests_length hplaced).mp hrec _ _ hcut
  cases htree

end Atlas
