import Atlas.EngineRule

/-!
# What a transfer commits

Every way a blob enters the store ends in `commitBlob`, with a temp whose
digests were computed from its bytes. The invariant of the store itself is
`CasSound`: a blob file is named by the BLAKE3 of its bytes, and a sidecar next
to a blob is true of it. A commit keeps it, also on the dedup path, where the
file already there is the one that was going to be committed because BLAKE3 is
injective.

`CommitPost` is what every transfer owes about the store, however it ends: on
failure and on a crash nothing happened to it, and on success it gained at most
the blob the returned sidecar names, which is there, is true of the sidecar and
is what was wanted (`trySource_commits`).
-/

namespace Atlas

open Text Program

variable {D : Digests}

/-- A sidecar is true of the bytes it stands next to: both digests and the size. -/
structure BlobMeta.TrueOf (D : Digests) (m : BlobMeta) (b : Bytes) : Prop where
  blake3 : m.blake3 = hexEncode (D.blake3 b)
  sha256 : m.sha256 = hexEncode (D.sha256 b)
  sizeBytes : m.sizeBytes = b.length

/-- **The store is content-addressed**: a blob file is named by its BLAKE3, and
the sidecar next to it is true of it. -/
structure CasSound (D : Digests) (c : Cache) : Prop where
  blob : ∀ key b, c.blobs key = some b → key = hexEncode (D.blake3 b) ∧
    Cas.blobPath key = .ok key
  sidecar : ∀ key m b, c.metas key = some m → c.blobs key = some b → m.TrueOf D b

/-- What a commit of bytes satisfying `P` does to the store: a blob is there under the key,
nothing else is lost, and the row is still to be written. -/
structure Committed (D : Digests) (P : Bytes → Prop) (c c' : Cache) (m : BlobMeta) :
    Prop where
  sound : CasSound D c'
  rows : c'.rows = c.rows
  kept : ∀ key b, c.blobs key = some b → c'.blobs key = some b
  fresh : ∀ key b, c'.blobs key = some b → c.blobs key = some b ∨ key = m.blake3
  blob : ∃ b, c'.blobs m.blake3 = some b ∧ m.TrueOf D b ∧ P b

theorem Committed.mono {P Q : Bytes → Prop} {c c' : Cache} {m : BlobMeta}
    (h : Committed D P c c' m) (hPQ : ∀ b, P b → Q b) : Committed D Q c c' m := by
  obtain ⟨b, hb, hm, hP⟩ := h.blob
  exact { h with blob := ⟨b, hb, hm, hPQ b hP⟩ }

/-- What a transfer owes about the store, however it ends: a commit where it succeeds, and
the cache as it was where not. -/
def CommitPost (D : Digests) (P : Bytes → Prop) (c : Cache) :
    Exit Error BlobMeta → Disk → Prop
  | .ok m, d => Committed D P c d.cache m
  | .err _, d => d.cache = c
  | .crash, d => d.cache = c

/-! ## The commit -/

/-- Hexadecimal of the right length names a blob by itself. -/
theorem blobPath_hexEncode {b : Bytes} {key : Text}
    (h : Cas.blobPath (hexEncode b) = .ok key) : key = hexEncode b := by
  unfold Cas.blobPath at h
  split at h
  · cases h
  · cases h
    exact toAsciiLowercase_hexEncode b

/-- Writing a true sidecar next to a blob keeps the store content-addressed. -/
theorem CasSound.writeMeta {c : Cache} (hc : CasSound D c) {key : Text} {b : Bytes}
    {m : BlobMeta} (hb : c.blobs key = some b) (hm : m.TrueOf D b) :
    CasSound D (Cas.writeMeta key m c) := by
  refine ⟨hc.blob, fun key' m' b' hm' hb' => ?_⟩
  by_cases hkey : key' = key
  · subst hkey
    rw [Cas.writeMeta_metas_self] at hm'
    rw [Cas.writeMeta_blobs, hb] at hb'
    cases hm'
    cases hb'
    exact hm
  · rw [Cas.writeMeta_metas_of_ne hkey] at hm'
    exact hc.sidecar key' m' b' hm' hb'

/-- Publishing a file under its BLAKE3, with its sidecar, keeps the store
content-addressed. -/
theorem CasSound.publish {c : Cache} (hc : CasSound D c) {file : Bytes} {m : BlobMeta}
    (hpath : Cas.blobPath (hexEncode (D.blake3 file)) = .ok (hexEncode (D.blake3 file)))
    (hm : m.TrueOf D file) :
    CasSound D (Cas.writeMeta (hexEncode (D.blake3 file)) m
      (Cas.publish (hexEncode (D.blake3 file)) file c)) := by
  constructor
  · intro key b hb
    rw [Cas.writeMeta_blobs] at hb
    by_cases hkey : key = hexEncode (D.blake3 file)
    · subst hkey
      rw [Cas.publish_blobs_self] at hb
      cases hb
      exact ⟨rfl, hpath⟩
    · rw [Cas.publish_blobs_of_ne hkey] at hb
      exact hc.blob key b hb
  · intro key m' b hm' hb
    rw [Cas.writeMeta_blobs] at hb
    by_cases hkey : key = hexEncode (D.blake3 file)
    · subst hkey
      rw [Cas.publish_blobs_self] at hb
      rw [Cas.writeMeta_metas_self] at hm'
      cases hb
      cases hm'
      exact hm
    · rw [Cas.publish_blobs_of_ne hkey] at hb
      rw [Cas.writeMeta_metas_of_ne hkey, Cas.publish_metas] at hm'
      exact hc.sidecar key m' b hm' hb

/-- Publishing a new file is a commit of it. -/
theorem CasSound.committed_publish {c : Cache} (hc : CasSound D c) {file : Bytes}
    {m : BlobMeta}
    (hpath : Cas.blobPath (hexEncode (D.blake3 file)) = .ok (hexEncode (D.blake3 file)))
    (hm : m.TrueOf D file) (hfree : c.blobs (hexEncode (D.blake3 file)) = none) :
    Committed D (· = file) c (Cas.writeMeta (hexEncode (D.blake3 file)) m
      (Cas.publish (hexEncode (D.blake3 file)) file c)) m := by
  refine ⟨hc.publish hpath hm, rfl, fun key b h => ?_, fun key b h => ?_, file, ?_, hm, rfl⟩
  · have hne : key ≠ hexEncode (D.blake3 file) := fun he => by
      rw [he, hfree] at h
      cases h
    rw [Cas.writeMeta_blobs, Cas.publish_blobs_of_ne hne]
    exact h
  · rw [Cas.writeMeta_blobs] at h
    by_cases hne : key = hexEncode (D.blake3 file)
    · exact Or.inr (hne.trans hm.blake3.symm)
    · rw [Cas.publish_blobs_of_ne hne] at h
      exact Or.inl h
  · rw [Cas.writeMeta_blobs, hm.blake3, Cas.publish_blobs_self]

/-- Finding the file there already is a commit of it too. -/
theorem CasSound.committed_existing {c c' : Cache} (hc' : CasSound D c') {file : Bytes}
    {m : BlobMeta} (hrows : c'.rows = c.rows) (hblobs : c'.blobs = c.blobs)
    (hblob : c.blobs (hexEncode (D.blake3 file)) = some file) (hm : m.TrueOf D file) :
    Committed D (· = file) c c' m := by
  refine ⟨hc', hrows, fun key b h => ?_, fun key b h => Or.inl ?_, file, ?_, hm, rfl⟩
  · rw [hblobs]
    exact h
  · rw [hblobs] at h
    exact h
  · rw [hblobs, hm.blake3]
    exact hblob

/-- **A commit of a verified temp.** The temp's bytes end up under their BLAKE3,
and nothing else changes; the dedup path finds them there already. -/
theorem commitBlob_commits (hinj : Function.Injective D.blake3) {temp : Text} {d : Disk}
    {hashes : Hashes} {size : ℕ} {file : List Cell} (hc : CasSound D d.cache)
    (htemp : d.temps temp = some file)
    (hb : hashes.blake3 = hexEncode (D.blake3 (bytesOf file)))
    (hs : hashes.sha256 = hexEncode (D.sha256 (bytesOf file)))
    (hsize : size = file.length) :
    CommitPost D (· = bytesOf file) d.cache (Cas.commitBlob temp hashes size d).1
      (Cas.commitBlob temp hashes size d).2 := by
  have hm : BlobMeta.TrueOf D ⟨hashes.blake3, hashes.sha256, size⟩ (bytesOf file) :=
    ⟨hb, hs, hsize.trans (List.length_map _).symm⟩
  unfold Cas.commitBlob
  rw [bind_apply]
  cases hpath : Cas.blobPath hashes.blake3 with
  | error e => rfl
  | ok key =>
    rw [hb] at hpath
    have hkey := blobPath_hexEncode hpath
    rw [hkey] at hpath
    simp only [ofExcept_ok, andThen_ok, bind_apply, get_apply]
    cases hblob : d.cache.blobs key with
    | some b =>
      -- the blob already there has the same BLAKE3, so it is the same
      have hsame : b = bytesOf file := by
        have h := (hc.blob key b hblob).1
        rw [hkey] at h
        exact (hinj (hexEncode_injective h)).symm
      rw [hsame] at hblob
      rw [hkey] at hblob
      simp only [bind_apply, modify_apply, andThen_ok]
      cases hmeta : d.cache.metas key with
      | some existing =>
        rw [hkey] at hmeta
        exact hc.committed_existing rfl rfl hblob (hc.sidecar _ existing _ hmeta hblob)
      | none =>
        rw [hkey]
        exact (hc.writeMeta hblob hm).committed_existing rfl rfl hblob hm
    | none =>
      simp only [htemp, bind_apply, modify_apply, andThen_ok]
      rw [hkey] at hblob ⊢
      exact hc.committed_publish hpath hm hblob

/-! ## A single stream

Everything before the commit works on the temp, the downloads row and the
trace: the store is as it was. -/

variable {t : Target} {c : Cache}

theorem recordFailure_cache (t : Target) (e : Error) (now : ℕ) :
    Keeps (fun d => d.cache = c) (recordFailure t e now) := by
  refine Keeps.bind (Keeps.modify fun _ hd => hd) fun _ => Keeps.whenever fun _ => ?_
  refine Keeps.bind (Keeps.modify fun _ hd => hd) fun _ => ?_
  refine Keeps.bind (fun _ hd => hd) fun _ => Keeps.modify fun _ hd => hd

/-- The store is as it was. -/
theorem cache_steady : Steady (fun d => d.cache = c) where
  temps _ _ hd := hd
  downloads _ _ hd := hd
  trace _ _ hd := hd
  failure := recordFailure_cache

/-- The temp is ready to be committed: its bytes are what the artifact
describes, and the digests and the size are theirs. -/
def Ready (D : Digests) (t : Target) (d : Disk) (hashes : Hashes) (size : ℕ) : Prop :=
  ∃ file, d.temps t.temp = some file ∧ t.artifact.Describes D (bytesOf file) ∧
    size = file.length ∧ hashes.blake3 = hexEncode (D.blake3 (bytesOf file)) ∧
    hashes.sha256 = hexEncode (D.sha256 (bytesOf file))

theorem streamToCommit_ready {attempt : Attempt} {d d' : Disk} {hashes : Hashes} {size : ℕ}
    (h : streamToCommit D t attempt d = (.ok (hashes, size), d')) :
    Ready D t d' hashes size := by
  obtain ⟨st, d₁, hhead, hverify⟩ := streamToCommit_eq_ok h
  obtain ⟨file, hin⟩ := hhead.inStep
  obtain ⟨rfl, hdesc, hsize, hb, hs⟩ := verifyStream_eq_ok hin hverify
  exact ⟨file, hin.temp, hdesc, hsize, hb, hs⟩

/-- Committing what is ready, and recording the success. -/
theorem commit_ready (hinj : Function.Injective D.blake3) (hc : CasSound D c) {d : Disk}
    {hashes : Hashes} {size : ℕ} (hd : d.cache = c) (hready : Ready D t d hashes size)
    (now : ℕ) :
    Triple (· = d) (do
      let m ← Cas.commitBlob t.temp hashes size
      modify (recordResult t.sourceId true false now)
      pure m) (CommitPost D (t.artifact.Describes D) c) := by
  rintro _ rfl
  subst hd
  obtain ⟨file, htemp, hdesc, hsize, hb, hs⟩ := hready
  have hcommit := commitBlob_commits hinj hc htemp hb hs hsize
  rw [bind_apply]
  generalize Cas.commitBlob t.temp hashes size _ = x at hcommit ⊢
  rcases x with ⟨m | e | _, d'⟩
  · refine Committed.mono hcommit fun b hb => ?_
    rw [hb]
    exact hdesc
  · exact hcommit
  · exact hcommit

/-- **A streaming attempt commits what its artifact describes, or nothing.** -/
theorem streamOnce_commits (hinj : Function.Injective D.blake3) (hc : CasSound D c)
    (attempt : Attempt) : Triple (fun d => d.cache = c) (streamOnce D t attempt)
      (CommitPost D (t.artifact.Describes D) c) := by
  intro d hd
  have hkeep := cache_steady.streamToCommit (D := D) (t := t) attempt d hd
  unfold streamOnce
  rw [bind_apply]
  rcases hrun : streamToCommit D t attempt d with ⟨⟨hashes, size⟩ | e | _, d'⟩
  · rw [hrun] at hkeep
    exact commit_ready hinj hc hkeep (streamToCommit_ready hrun) attempt.now d' rfl
  · rw [hrun] at hkeep
    exact hkeep
  · rw [hrun] at hkeep
    exact hkeep

/-! ## One source -/

/-- What a transfer owes when its failure is caught, as the loop over sources catches it. -/
def CaughtPost (D : Digests) (P : Bytes → Prop) (c : Cache) :
    Exit Error (Except Error BlobMeta) → Disk → Prop
  | .ok (.ok m), d => Committed D P c d.cache m
  | .ok (.error _), d => d.cache = c
  | .err _, d => d.cache = c
  | .crash, d => d.cache = c

theorem caught_commits {P : Bytes → Prop} {I : Disk → Prop}
    {x : Program Disk Error BlobMeta} (h : Triple I x (CommitPost D P c)) :
    Triple I (result x) (CaughtPost D P c) :=
  Triple.result (h.post fun r d hr => by cases r <;> exact hr)

theorem attemptLoop_commits (hinj : Function.Injective D.blake3) (hc : CasSound D c)
    (run : SourceRun) (retries n : ℕ) :
    Triple (fun d => d.cache = c) (attemptLoop D t run retries n)
      (CommitPost D (t.artifact.Describes D) c) := by
  induction retries generalizing n with
  | zero =>
    unfold attemptLoop
    refine Triple.bind (caught_commits (streamOnce_commits hinj hc _)) (fun r => ?_)
      (fun _ _ h => h) (fun _ h => h)
    cases r with
    | ok m => exact Triple.pure fun _ h => h
    | error e =>
      refine Triple.ite (fun _ => Triple.throw fun _ h => h) (fun _ => ?_)
      exact Triple.bind (recordFailure_cache t e _) (fun _ => Triple.throw fun _ h => h)
        (fun _ _ h => h) (fun _ h => h)
  | succ retries ih =>
    unfold attemptLoop
    refine Triple.bind (caught_commits (streamOnce_commits hinj hc _)) (fun r => ?_)
      (fun _ _ h => h) (fun _ h => h)
    cases r with
    | ok m => exact Triple.pure fun _ h => h
    | error e =>
      refine Triple.ite (fun _ => Triple.throw fun _ h => h) (fun _ => ?_)
      refine Triple.bind (recordFailure_cache t e _) (fun _ => ?_)
        (fun _ _ h => h) (fun _ h => h)
      exact Triple.ite (fun _ => ih (n + 1)) (fun _ => Triple.throw fun _ h => h)

/-! ## A segmented transfer -/

/-- What a whole-file read fed to the verifier. -/
theorem readWhole_eq_ok {polls : ℕ → Bool} {v v' : StreamingVerifier} {file : Bytes}
    {reads : ℕ} (h : readWhole D polls v file reads = .ok v') : v.Fed D file v' := by
  induction v, file, reads using readWhole.induct D polls with
  | case1 v file reads hpoll =>
    rw [readWhole, if_pos hpoll] at h
    cases h
  | case2 v file reads hpoll buf hbuf =>
    rw [readWhole, if_neg hpoll, if_pos hbuf] at h
    cases h
    have hfile : file = [] := by
      have := congrArg List.length hbuf
      rw [List.length_take, List.length_nil] at this
      exact List.length_eq_zero_iff.mp (by have : 0 < READ_BUFFER := by decide
                                           omega)
    rw [hfile]
    exact .nil
  | case3 v file reads hpoll buf hbuf e hfeed =>
    rw [readWhole, if_neg hpoll, if_neg hbuf] at h
    simp only [buf] at hfeed
    rw [hfeed] at h
    cases h
  | case4 v file reads hpoll buf hbuf v₁ hfeed ih =>
    rw [readWhole, if_neg hpoll, if_neg hbuf] at h
    simp only [buf] at hfeed ih
    rw [hfeed] at h
    have hfed := (StreamingVerifier.Fed.single hfeed).trans (ih h)
    rwa [List.take_append_drop] at hfed

/-- **A temp that passes the full-file gate is ready to be committed.** -/
theorem verifyTempFull_ready {polls : ℕ → Bool} {d d' : Disk} {hashes : Hashes}
    (htotal : t.total ≠ 0) (h : verifyTempFull D t polls d = (.ok hashes, d')) :
    d' = d ∧ Ready D t d hashes t.total := by
  unfold verifyTempFull at h
  rw [bind_apply, get_apply, andThen_ok] at h
  cases htemp : d.temps t.temp with
  | none =>
    simp only [htemp] at h
    cases h
  | some file =>
    simp only [htemp] at h
    cases hread : readWhole D polls (StreamingVerifier.new t.artifact.hashes
        t.artifact.sizeBytes none t.artifact.path) (bytesOf file) 0 with
    | error e =>
      rw [hread] at h
      cases h
    | ok v =>
      rw [hread] at h
      cases hfinish : v.finish D with
      | error e =>
        rw [show (Except.ok v >>= StreamingVerifier.finish D) = v.finish D from rfl,
          hfinish] at h
        cases h
      | ok got =>
        rw [show (Except.ok v >>= StreamingVerifier.finish D) = v.finish D from rfl,
          hfinish] at h
        cases h
        obtain ⟨hmatch, hsize, hb, hs⟩ :=
          StreamingVerifier.finish_eq_ok (readWhole_eq_ok hread).consumed hfinish
        have hlen := hsize htotal
        rw [bytesOf, List.length_map] at hlen
        exact ⟨rfl, file, htemp, ⟨hmatch, hsize⟩, hlen.symm, hb, hs⟩

/-- The full-file gate, and the commit behind it. -/
theorem verifyAndCommit_commits (hinj : Function.Injective D.blake3) (hc : CasSound D c)
    (htotal : t.total ≠ 0) (polls : ℕ → Bool) (now : ℕ) :
    Triple (fun d => d.cache = c) (do
      let hashes ← verifyTempFull D t polls
      let m ← Cas.commitBlob t.temp hashes t.total
      modify (recordResult t.sourceId true false now)
      pure m) (CommitPost D (t.artifact.Describes D) c) := by
  intro d hd
  have hkeep := Streaming.verifyTempFull (D := D) (t := t) (I := fun d => d.cache = c) polls d hd
  rw [bind_apply]
  rcases hrun : verifyTempFull D t polls d with ⟨hashes | e | _, d'⟩
  · rw [hrun] at hkeep
    obtain ⟨rfl, hready⟩ := verifyTempFull_ready htotal hrun
    exact commit_ready hinj hc hkeep hready now d' rfl
  · rw [hrun] at hkeep
    exact hkeep
  · rw [hrun] at hkeep
    exact hkeep

/-- **A segmented transfer commits what its artifact describes, or nothing.** -/
theorem streamSegmented_commits (hinj : Function.Injective D.blake3) (hc : CasSound D c)
    (connections : ℕ) (run : SegmentedRun) :
    Triple (fun d => d.cache = c) (streamSegmented D t connections run)
      (CommitPost D (t.artifact.Describes D) c) := by
  unfold streamSegmented
  dsimp only
  split
  · exact Triple.throw fun _ h => h
  · rename_i hn
    have htotal : t.total ≠ 0 := fun hzero => by
      rw [hzero, Nat.zero_div] at hn
      omega
    refine Triple.bind cache_steady.presizeTemp (fun _ => ?_) (fun _ _ h => h) (fun _ h => h)
    refine Triple.bind (Keeps.result (cache_steady.runSegments run _)) (fun r => ?_)
      (fun _ _ h => h) (fun _ h => h)
    cases r with
    | error e =>
      have hreset : Keeps (fun d => d.cache = c) (whenever (e = Error.cancelled)
          (modify (resetSegmentedPartial t) : Program Disk Error Unit)) :=
        Keeps.whenever fun _ => cache_steady.resetSegmentedPartial
      exact Triple.bind hreset (fun _ => Triple.throw fun _ h => h) (fun _ _ h => h)
        (fun _ h => h)
    | ok u =>
      refine Triple.ite (fun _ => ?_) (fun _ => ?_)
      · exact Triple.bind cache_steady.resetSegmentedPartial
          (fun _ => Triple.throw fun _ h => h) (fun _ _ h => h) (fun _ h => h)
      · exact verifyAndCommit_commits hinj hc htotal run.cancelPolls run.now

/-- **Trying a source commits what the artifact describes, or nothing.** -/
theorem trySource_commits (hinj : Function.Injective D.blake3) (hc : CasSound D c)
    (maxAttempts : ℕ) (run : SourceRun) :
    Triple (fun d => d.cache = c) (trySource D maxAttempts t run)
      (CommitPost D (t.artifact.Describes D) c) := by
  unfold trySource
  cases run.preflight with
  | error e => exact Triple.throw fun _ h => h
  | ok u =>
    refine Triple.bind Keeps.get (fun d => ?_) (fun _ _ h => h) (fun _ h => h)
    refine Triple.ite (fun _ => ?_) (fun _ => attemptLoop_commits hinj hc run _ _)
    refine Triple.bind (caught_commits (streamSegmented_commits hinj hc _ _))
      (fun r => ?_) (fun _ _ h => h) (fun _ h => h)
    cases r with
    | ok m => exact Triple.pure fun _ h => h
    | error e =>
      refine Triple.ite (fun _ => Triple.throw fun _ h => h) (fun _ => ?_)
      exact Triple.bind (Keeps.modify fun d => cache_steady.truncateTo _ _)
        (fun _ => attemptLoop_commits hinj hc run _ _) (fun _ _ h => h) (fun _ h => h)

/-! ## Downloads -/

/-- What a download does to the store: nothing when it fails; on success either
a cache hit, which writes what the artifact declares into the row of the blob
that was found, or a transfer, which commits a blob the artifact describes and
indexes it. -/
def DownloadPost (D : Digests) (artifact : Artifact) (c : Cache) :
    Exit Error ArtifactOutcome → Disk → Prop
  | .ok o, d =>
    (cachedBlake3 c artifact = some o.blake3 ∧
      d.cache = upsertRow ⟨o.blake3, artifact.hashes.sha256, artifact.sizeBytes⟩ c) ∨
    (∃ c' m buildsTree, Committed D (artifact.Describes D) c c' m ∧
      d.cache = finalizeBlob D artifact m buildsTree c' ∧ o.blake3 = m.blake3)
  | .err _, d => d.cache = c
  | .crash, d => d.cache = c

theorem finishCancelled_spec (artifact : Artifact) (discard : Bool)
    (downloadId temp : Text) :
    Triple (fun d => d.cache = c) (finishCancelled discard downloadId temp)
      (DownloadPost D artifact c) := by
  refine Triple.ite (fun _ => ?_) (fun _ => ?_)
  all_goals
    exact Triple.bind (Keeps.modify fun _ hd => hd) (fun _ => Triple.throw fun _ h => h)
      (fun _ _ h => h) (fun _ h => h)

theorem sourceLoop_spec (hinj : Function.Injective D.blake3) (hc : CasSound D c)
    (ctx : LoopContext) (plan : List PlannedSource) (partialOwner : Option Text)
    (lastErr : Option Error) :
    Triple (fun d => d.cache = c) (sourceLoop D ctx plan partialOwner lastErr)
      (DownloadPost D ctx.artifact c) := by
  induction plan generalizing partialOwner lastErr with
  | nil =>
    exact Triple.bind (Keeps.modify fun _ hd => hd) (fun _ => Triple.throw fun _ h => h)
      (fun _ _ h => h) (fun _ h => h)
  | cons planned rest ih =>
    unfold sourceLoop
    refine Triple.ite (fun _ => finishCancelled_spec _ _ _ _) (fun _ => ?_)
    refine Triple.bind Keeps.get (fun d => ?_) (fun _ _ h => h) (fun _ h => h)
    refine Triple.ite (fun _ => ih _ _) (fun _ => ?_)
    refine Triple.bind (Keeps.whenever fun _ => Keeps.modify fun d =>
      cache_steady.truncateTo _ _) (fun _ => ?_) (fun _ _ h => h) (fun _ h => h)
    refine Triple.bind (caught_commits (trySource_commits hinj hc _ _)) (fun r => ?_)
      (fun _ _ h => h) (fun _ h => h)
    cases r with
    | ok m =>
      intro d hd
      exact Or.inr ⟨d.cache, m, ctx.buildsTree, hd, rfl, rfl⟩
    | error e =>
      refine Triple.ite (fun _ => finishCancelled_spec _ _ _ _) (fun _ => ?_)
      exact Triple.bind Keeps.get (fun d => ih _ _) (fun _ _ h => h) (fun _ h => h)

theorem transferArtifact_spec (hinj : Function.Injective D.blake3) (hc : CasSound D c)
    (maxAttempts : ℕ) (manifestId : Text) (artifact : Artifact) (run : DownloadRun) :
    Triple (fun d => d.cache = c)
      (transferArtifact D maxAttempts manifestId artifact run)
      (DownloadPost D artifact c) := by
  unfold transferArtifact
  dsimp only
  refine Triple.bind (Keeps.modify fun _ hd => hd) (fun _ => ?_) (fun _ _ h => h)
    (fun _ h => h)
  refine Triple.bind Keeps.get (fun d => ?_) (fun _ _ h => h) (fun _ h => h)
  exact Triple.bind (cache_steady.adoptPartial _ _ _)
    (fun _ => sourceLoop_spec hinj hc ⟨manifestId, artifact, _, _, _, _, _, _⟩ _ _ _)
    (fun _ _ h => h) (fun _ h => h)

/-- **What a download does to the store.** -/
theorem downloadArtifact_spec (hinj : Function.Injective D.blake3) (hc : CasSound D c)
    (maxAttempts : ℕ) (manifestId : Text) (artifact : Artifact) (run : DownloadRun) :
    Triple (fun d => d.cache = c)
      (downloadArtifact D maxAttempts manifestId artifact run)
      (DownloadPost D artifact c) := by
  intro d hd
  unfold downloadArtifact
  rw [bind_apply, get_apply, andThen_ok]
  cases hcached : cachedBlake3 d.cache artifact with
  | some blake3 =>
    refine Or.inl ⟨?_, ?_⟩
    · rw [← hd]
      exact hcached
    · show upsertRow _ d.cache = _
      rw [hd]
  | none =>
    dsimp only
    split
    · exact hd
    · split
      · exact hd
      · exact transferArtifact_spec hinj hc maxAttempts manifestId artifact run d hd

/-! ## Imports -/

/-- Importing a file under its own digests is a commit of it. -/
theorem importFile_commits (hinj : Function.Injective D.blake3) (hc : CasSound D c)
    (file : Bytes) :
    Triple (fun d => d.cache = c)
      (Cas.importFile file (hashFile D file).1 (hashFile D file).2)
      (CommitPost D (· = file) c) := by
  rintro d rfl
  have hm : BlobMeta.TrueOf D ⟨(hashFile D file).1.blake3, (hashFile D file).1.sha256,
      (hashFile D file).2⟩ file := ⟨rfl, rfl, Nat.zero_add _⟩
  have hb3 : (hashFile D file).1.blake3 = hexEncode (D.blake3 file) := hm.blake3
  unfold Cas.importFile
  rw [bind_apply, get_apply, andThen_ok]
  -- a blob already under its BLAKE3 is not copied again: injectivity makes it the same file;
  -- otherwise the file is staged and committed as a download is
  by_cases hhas : Cas.hasBlob d.cache (hashFile D file).1.blake3 = true
  · rw [if_pos hhas]
    unfold Cas.hasBlob at hhas
    dsimp only
    cases hpath : Cas.blobPath (hashFile D file).1.blake3 with
    | error e =>
      rw [hpath] at hhas
      cases hhas
    | ok key =>
      rw [hpath] at hhas
      rw [hb3] at hpath
      have hkey := blobPath_hexEncode hpath
      obtain ⟨b, hblob⟩ := Option.isSome_iff_exists.mp hhas
      have hsame : b = file := by
        have h := (hc.blob key b hblob).1
        rw [hkey] at h
        exact (hinj (hexEncode_injective h)).symm
      rw [hsame, hkey] at hblob
      simp only [bind_apply, ofExcept_ok, andThen_ok, modify_apply]
      rw [hkey]
      exact (hc.writeMeta hblob hm).committed_existing rfl rfl hblob hm
  · rw [if_neg hhas]
    have hcells : bytesOf (file.map fun b => (⟨b, none⟩ : Cell)) = file := by
      rw [bytesOf, List.map_map]
      exact List.map_id file
    have hb : (hashFile D file).1.blake3 =
        hexEncode (D.blake3 (bytesOf (file.map fun b => (⟨b, none⟩ : Cell)))) := by
      rw [hcells]
      rfl
    have hs : (hashFile D file).1.sha256 =
        hexEncode (D.sha256 (bytesOf (file.map fun b => (⟨b, none⟩ : Cell)))) := by
      rw [hcells]
      rfl
    have hsize : (hashFile D file).2 = (file.map fun b => (⟨b, none⟩ : Cell)).length := by
      rw [List.length_map]
      exact Nat.zero_add _
    have hcommit := fun temp => commitBlob_commits hinj
      (show CasSound D (d.setTemp temp (some (file.map fun b => (⟨b, none⟩ : Cell)))).cache
        from hc) (Disk.setTemp_temps_self _ _ d) hb hs hsize
    rw [hcells] at hcommit
    exact hcommit _

end Atlas
