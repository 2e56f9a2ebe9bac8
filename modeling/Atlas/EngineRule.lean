import Atlas.Engine
import Atlas.StreamInvariant

/-!
# What no download disturbs

A download writes the partial files, the downloads and health tables, the
quarantine, the trace and the store, and the places it writes them from are
many. An `Undisturbed` predicate is one that survives each kind of write; it
then survives everything a download does, whichever way the download goes and
however it ends (`downloadArtifact_keeps`).

The one write that is not taken by itself is the recording of a failure, where
the trace, the health table and the quarantine change together.
-/

namespace Atlas

open Text Program

variable {D : Digests} {t : Target}

/-- A predicate that no stream disturbs before it commits, whatever it does to partials,
rows and trace. -/
structure Streaming (I : Disk → Prop) : Prop where
  temps : ∀ d temps, I d → I { d with temps := temps }
  downloads : ∀ d downloads, I d → I { d with downloads := downloads }
  trace : ∀ d events, I d → I { d with trace := d.trace ++ events }

/-- A predicate that no transfer disturbs before it commits, the record of a failure included. -/
structure Steady (I : Disk → Prop) : Prop extends Streaming I where
  failure : ∀ t e now, Keeps I (recordFailure t e now)

/-- A predicate that no commit disturbs, because it says nothing of the cache. -/
structure Committing (I : Disk → Prop) : Prop extends Streaming I where
  cache : ∀ d cache, I d → I { d with cache := cache }

/-- **A predicate that no step of a download disturbs**, a commit's and a success's included. -/
structure Undisturbed (I : Disk → Prop) : Prop extends Steady I, Committing I where
  success : ∀ d sourceId now, I d → I (recordResult sourceId true false now d)

namespace Streaming

variable {I : Disk → Prop} (h : Streaming I)

include h

/-! ## The writes of a transfer -/

theorem setTemp (temp : Text) (file : Option (List Cell)) {d : Disk} (hd : I d) :
    I (d.setTemp temp file) :=
  h.temps d _ hd

theorem truncateTo (temp : Text) (len : ℕ) {d : Disk} (hd : I d) :
    I (truncateTo temp len d) := by
  unfold Atlas.truncateTo
  split
  · exact hd
  · exact h.setTemp temp _ hd

theorem createTemp (temp : Text) {d : Disk} (hd : I d) : I (createTemp temp d) := by
  unfold Atlas.createTemp
  split
  · exact h.setTemp temp _ hd
  · exact hd

theorem writeTemp (temp sourceId : Text) (offset : ℕ) (data : Bytes) {d : Disk}
    (hd : I d) : I (writeTemp temp sourceId offset data d) := by
  unfold Atlas.writeTemp
  split
  · exact hd
  · exact h.setTemp temp _ hd

theorem refreshDownload (downloadId : Text) (bytesDone : ℕ) (sourceId : Text) {d : Disk}
    (hd : I d) : I (refreshDownload downloadId bytesDone sourceId d) :=
  h.downloads d _ hd

theorem note (e : Event) {d : Disk} (hd : I d) : I (d.note e) :=
  h.trace d [e] hd

/-! ## One source -/

theorem openStream (attempt : Attempt) : Keeps I (openStream D t attempt) := by
  intro d hd
  have hspec := openStream_spec D t attempt d
  generalize Atlas.openStream D t attempt d = run at hspec ⊢
  cases hspec with
  | @failed e file _ _ =>
    have hfile : I { d with temps := Function.update d.temps t.temp file } := h.temps d _ hd
    exact h.trace _ (resumedNote t d) hfile
  | @opened opening kept v _ _ _ =>
    have hfile : I { d with temps := Function.update d.temps t.temp (some kept) } :=
      h.temps d _ hd
    exact h.trace _ _ (h.trace _ (resumedNote t d) hfile)

theorem streamStep (ceiling : Option ℕ) (st : StreamState) (ev : StreamEvent) :
    Keeps I (streamStep D t ceiling st ev) := by
  have hwrite : ∀ data, Keeps I (modify
      (Atlas.writeTemp t.temp t.sourceId st.bytesDone data) : Program Disk Error Unit) :=
    fun data => Keeps.modify fun d => h.writeTemp _ _ _ data
  have hrefresh : ∀ n, Keeps I (modify
      (Atlas.refreshDownload t.downloadId n t.sourceId) : Program Disk Error Unit) :=
    fun n => Keeps.modify fun d => h.refreshDownload _ n _
  unfold Atlas.streamStep
  refine Keeps.ite (Keeps.bind (hrefresh _) fun _ => Keeps.throw _) ?_
  cases ev.item with
  | error e => exact Keeps.throw _
  | ok chunk =>
    refine Keeps.bind (Keeps.modify fun d => h.note _) fun _ => ?_
    refine Keeps.ite (Keeps.throw _) (Keeps.ite (Keeps.throw _) ?_)
    cases st.verifier.feed D chunk with
    | error e => exact Keeps.throw _
    | ok v =>
      cases ev.write with
      | failed landed message => exact Keeps.bind (hwrite _) fun _ => Keeps.throw _
      | died landed => exact Keeps.bind (hwrite _) fun _ => Keeps.die
      | written =>
        refine Keeps.bind (hwrite _) fun _ => ?_
        exact Keeps.ite (Keeps.bind (hrefresh _) fun _ => Keeps.pure _) (Keeps.pure _)

omit h in
theorem verifyStream (st : StreamState) : Keeps I (verifyStream D t st) := by
  refine Keeps.ite (Keeps.throw _) ?_
  cases st.verifier.finish D with
  | error e => exact Keeps.throw _
  | ok hashes => exact Keeps.pure _

theorem streamToCommit (attempt : Attempt) : Keeps I (streamToCommit D t attempt) := by
  refine Keeps.bind (h.openStream attempt) fun r => ?_
  refine Keeps.bind (Keeps.foldlM (fun st ev => h.streamStep _ st ev) _ _) fun st => ?_
  cases r.1.ending with
  | died => exact Keeps.die
  | endOfStream => exact verifyStream st

theorem segmentStep (ranges : List (ℕ × ℕ)) (st : SegmentState)
    (turn : ℕ × SegmentInput) : Keeps I (segmentStep t ranges st turn) := by
  have hwrite : ∀ offset data, Keeps I (modify
      (Atlas.writeTemp t.temp t.sourceId offset data) : Program Disk Error Unit) :=
    fun offset data => Keeps.modify fun d => h.writeTemp _ _ offset data
  unfold Atlas.segmentStep
  split
  · exact Keeps.pure _
  · dsimp only
    cases turn.2 with
    | openFailed e => exact Keeps.ite (Keeps.pure _) (Keeps.throw _)
    | opened honoursRange => exact Keeps.ite (Keeps.throw _) (Keeps.pure _)
    | endOfStream => exact Keeps.ite (Keeps.throw _) (Keeps.pure _)
    | event ev =>
      refine Keeps.ite (Keeps.pure _) (Keeps.ite (Keeps.throw _) ?_)
      cases ev.item with
      | error e => exact Keeps.throw _
      | ok chunk =>
        refine Keeps.bind (Keeps.modify fun d => h.note _) fun _ => ?_
        cases ev.write with
        | failed landed message => exact Keeps.bind (hwrite _ _) fun _ => Keeps.throw _
        | died landed => exact Keeps.bind (hwrite _ _) fun _ => Keeps.die
        | written =>
          refine Keeps.bind (hwrite _ _) fun _ => Keeps.ite ?_ (Keeps.pure _)
          exact Keeps.bind (Keeps.modify fun d => h.refreshDownload _ _ _) fun _ => Keeps.pure _

theorem runSegments (run : SegmentedRun) (ranges : List (ℕ × ℕ)) :
    Keeps I (runSegments t run ranges) :=
  Keeps.bind (Keeps.foldlM (fun st turn => h.segmentStep ranges st turn) _ _)
    fun _ => Keeps.ite (Keeps.pure ()) Keeps.die

theorem resetSegmentedPartial : Keeps I
    (modify (resetSegmentedPartial t) : Program Disk Error Unit) :=
  Keeps.modify fun _ hd => h.refreshDownload _ _ _ (h.truncateTo _ _ hd)

theorem presizeTemp : Keeps I (modify (presizeTemp t) : Program Disk Error Unit) :=
  Keeps.modify fun _ hd => h.truncateTo _ _ (h.createTemp _ hd)

omit h in
theorem verifyTempFull (polls : ℕ → Bool) : Keeps I (verifyTempFull D t polls) := by
  refine Keeps.bind Keeps.get fun d => ?_
  cases d.temps t.temp with
  | none => exact Keeps.throw _
  | some file => exact Keeps.ofExcept _

theorem finishCancelled (discard : Bool) (downloadId temp : Text) :
    Keeps I (finishCancelled discard downloadId temp) := by
  refine Keeps.ite (Keeps.bind (Keeps.modify fun d hd => ?_) fun _ => Keeps.throw _)
    (Keeps.bind (Keeps.modify fun d => h.downloads d _) fun _ => Keeps.throw _)
  exact h.downloads (d.setTemp temp none) _ (h.setTemp temp none hd)

theorem adoptPartial (chunkTree : Option ChunkTree) (temp downloadId : Text) :
    Keeps I (adoptPartial chunkTree temp downloadId) :=
  Keeps.bind Keeps.get fun _ => Keeps.bind (Keeps.whenever fun _ =>
    Keeps.modify fun _ => h.truncateTo _ _) fun _ => Keeps.pure _

end Streaming

/-- A commit keeps what no commit disturbs. -/
theorem Committing.commitBlob {I : Disk → Prop} (h : Committing I) (temp : Text)
    (hashes : Hashes) (size : ℕ) :
    Keeps I (Cas.commitBlob temp hashes size) := by
  unfold Cas.commitBlob
  refine Keeps.bind (Keeps.ofExcept _) fun key => Keeps.bind Keeps.get fun d => ?_
  dsimp only
  split
  · refine Keeps.bind (Keeps.modify fun d => h.setTemp temp none) fun _ => ?_
    split
    · exact Keeps.pure _
    · exact Keeps.bind (Keeps.modify fun d => h.cache d _) fun _ => Keeps.pure _
  · split
    · exact Keeps.throw _
    · refine Keeps.bind (Keeps.modify fun d hd => ?_) fun _ => Keeps.pure _
      exact h.cache _ _ (h.setTemp temp none hd)

/-- A stream that fails has recorded no success. -/
theorem Committing.streamOnce_err {I : Disk → Prop} (h : Committing I) (attempt : Attempt) :
    Triple I (streamOnce D t attempt) (fun r d => ∀ e, r = .err e → I d) := by
  refine Triple.bind (h.streamToCommit attempt) (fun a => ?_) (fun _ _ h _ _ => h)
    fun _ _ _ he => nomatch he
  refine Triple.bind (h.commitBlob _ _ _) (fun m => ?_) (fun _ _ h _ _ => h)
    fun _ _ _ he => nomatch he
  exact fun _ _ _ he => nomatch he

theorem Committing.streamSegmented_err {I : Disk → Prop} (h : Committing I) (connections : ℕ)
    (run : SegmentedRun) :
    Triple I (streamSegmented D t connections run) (fun r d => ∀ e, r = .err e → I d) := by
  unfold Atlas.streamSegmented
  dsimp only
  split
  · exact Triple.throw fun _ h _ _ => h
  · refine Triple.bind h.presizeTemp (fun _ => ?_) (fun _ _ h _ _ => h) fun _ _ _ he => by cases he
    refine Triple.bind (Keeps.result (h.runSegments run _)) (fun r => ?_)
      (fun _ _ h _ _ => h) fun _ _ _ he => by cases he
    cases r with
    | error e =>
      exact (Keeps.bind (Keeps.whenever fun _ => h.resetSegmentedPartial)
        fun _ => Keeps.throw _).post fun _ _ h _ _ => h
    | ok u =>
      refine Triple.ite (fun _ => ?_) fun _ => ?_
      · exact (Keeps.bind h.resetSegmentedPartial fun _ => Keeps.throw _).post
          fun _ _ h _ _ => h
      · refine Triple.bind (Streaming.verifyTempFull _) (fun hashes => ?_)
          (fun _ _ h _ _ => h) fun _ _ _ he => by cases he
        refine Triple.bind (h.commitBlob _ _ _) (fun m => ?_) (fun _ _ h _ _ => h)
          fun _ _ _ he => by cases he
        exact fun _ _ _ he => by cases he

namespace Undisturbed

variable {I : Disk → Prop} (h : Undisturbed I)

include h

/-! ## One artifact -/

theorem succeeded (now : ℕ) (m : BlobMeta) : Keeps I (do
    modify (recordResult t.sourceId true false now)
    (pure m : Program Disk Error BlobMeta)) :=
  Keeps.bind (Keeps.modify fun d => h.success d _ now) fun _ => Keeps.pure m

theorem streamOnce (attempt : Attempt) : Keeps I (streamOnce D t attempt) :=
  Keeps.bind (h.streamToCommit attempt) fun _ => Keeps.bind (h.commitBlob _ _ _) fun m =>
    h.succeeded _ m

theorem streamSegmented (connections : ℕ) (run : SegmentedRun) :
    Keeps I (streamSegmented D t connections run) := by
  unfold Atlas.streamSegmented
  dsimp only
  split
  · exact Keeps.throw _
  · refine Keeps.bind h.presizeTemp fun _ =>
      Keeps.bind (Keeps.result (h.runSegments run _)) fun r => ?_
    cases r with
    | error e =>
      exact Keeps.bind (Keeps.whenever fun _ => h.resetSegmentedPartial) fun _ => Keeps.throw _
    | ok u =>
      refine Keeps.ite (Keeps.bind h.resetSegmentedPartial fun _ => Keeps.throw _) ?_
      exact Keeps.bind (Streaming.verifyTempFull _) fun hashes =>
        Keeps.bind (h.commitBlob _ _ _) fun m => h.succeeded _ m

theorem attemptLoop (run : SourceRun) (retries n : ℕ) :
    Keeps I (attemptLoop D t run retries n) := by
  induction retries generalizing n with
  | zero =>
    unfold Atlas.attemptLoop
    refine Keeps.bind (Keeps.result (h.streamOnce _)) fun r => ?_
    cases r with
    | ok m => exact Keeps.pure m
    | error e =>
      exact Keeps.ite (Keeps.throw e) (Keeps.bind (h.failure t e _) fun _ => Keeps.throw e)
  | succ retries ih =>
    unfold Atlas.attemptLoop
    refine Keeps.bind (Keeps.result (h.streamOnce _)) fun r => ?_
    cases r with
    | ok m => exact Keeps.pure m
    | error e =>
      exact Keeps.ite (Keeps.throw e) (Keeps.bind (h.failure t e _) fun _ =>
        Keeps.ite (ih (n + 1)) (Keeps.throw e))

theorem trySource (maxAttempts : ℕ) (run : SourceRun) :
    Keeps I (trySource D maxAttempts t run) := by
  unfold Atlas.trySource
  cases run.preflight with
  | error e => exact Keeps.throw _
  | ok u =>
    refine Keeps.bind Keeps.get fun d => Keeps.ite ?_ (h.attemptLoop run _ 0)
    refine Keeps.bind (Keeps.result (h.streamSegmented _ _)) fun r => ?_
    cases r with
    | ok m => exact Keeps.pure m
    | error e =>
      exact Keeps.ite (Keeps.throw e) (Keeps.bind (Keeps.modify fun d => h.truncateTo _ _)
        fun _ => h.attemptLoop run _ 0)

theorem sourceLoop (ctx : LoopContext) (plan : List PlannedSource)
    (partialOwner : Option Text) (lastErr : Option Error) :
    Keeps I (sourceLoop D ctx plan partialOwner lastErr) := by
  induction plan generalizing partialOwner lastErr with
  | nil => exact Keeps.bind (Keeps.modify fun d => h.downloads d _) fun _ => Keeps.throw _
  | cons planned rest ih =>
    refine Keeps.ite (h.finishCancelled _ _ _) (Keeps.bind Keeps.get fun d => ?_)
    refine Keeps.ite (ih _ _) (Keeps.bind (Keeps.whenever fun _ =>
      Keeps.modify fun d => h.truncateTo _ _) fun _ => ?_)
    refine Keeps.bind (Keeps.result (h.trySource _ _)) fun r => ?_
    cases r with
    | ok m =>
      refine Keeps.bind (Keeps.modify fun d hd => ?_) fun _ => Keeps.pure _
      have hrow : I { d with
          downloads := Db.setDownloadState ctx.downloadId "complete".toList d.downloads } :=
        h.downloads d _ hd
      exact h.cache _ _ hrow
    | error e =>
      exact Keeps.ite (h.finishCancelled _ _ _) (Keeps.bind Keeps.get fun d => ih _ _)

/-- **A download keeps what no step of it disturbs**, however it ends. -/
theorem downloadArtifact (maxAttempts : ℕ) (manifestId : Text) (artifact : Artifact)
    (run : DownloadRun) : Keeps I (downloadArtifact D maxAttempts manifestId artifact run) := by
  refine Keeps.bind Keeps.get fun d => ?_
  cases cachedBlake3 d.cache artifact with
  | some blake3 => exact Keeps.bind (Keeps.modify fun d => h.cache d _) fun _ => Keeps.pure _
  | none =>
    refine Keeps.ite (Keeps.throw _) (Keeps.ite (Keeps.throw _) ?_)
    refine Keeps.bind (Keeps.modify fun d => h.downloads d _) fun _ =>
      Keeps.bind Keeps.get fun d => ?_
    exact Keeps.bind (h.adoptPartial _ _ _) fun _ => h.sourceLoop _ _ _ _

/-! ## Imports -/

theorem importFile (file : Bytes) (hashes : Hashes) (size : ℕ) :
    Keeps I (Cas.importFile file hashes size) := by
  refine Keeps.bind Keeps.get fun d => Keeps.ite ?_ ?_
  · refine Keeps.bind (Keeps.ofExcept _) fun key => ?_
    exact Keeps.bind (Keeps.modify fun d => h.cache d _) fun _ => Keeps.pure _
  · exact Keeps.bind (Keeps.modify fun d => h.setTemp _ _) fun _ => h.commitBlob _ _ _

/-- Importing a file and indexing it. -/
theorem importIndexed (file : Bytes) (hashes : Hashes) (size : ℕ) (artifact : Artifact) :
    Keeps I (do
      let m ← Cas.importFile file hashes size
      modify fun d => { d with cache := indexBlob D artifact m d.cache }
      pure m) :=
  Keeps.bind (h.importFile file hashes size) fun _ =>
    Keeps.bind (Keeps.modify fun d => h.cache d _) fun _ => Keeps.pure _

theorem importArtifactFile (manifestId artifactPath : Text) (file : Bytes) :
    Keeps I (importArtifactFile D manifestId artifactPath file) := by
  refine Keeps.bind Keeps.get fun d => Keeps.bind (Keeps.ofExcept _) fun m => ?_
  cases m.artifact artifactPath with
  | none => exact Keeps.throw _
  | some artifact =>
    refine Keeps.ite (Keeps.throw _) ?_
    split
    · exact Keeps.throw _
    · exact h.importIndexed file _ _ artifact

theorem importLocalFile (hmanifest : ∀ m, Keeps I (importManifest m)) (file : Bytes)
    (manifest : Manifest) : Keeps I (importLocalFile D file manifest) := by
  refine Keeps.bind (hmanifest _) fun _ => Keeps.bind (h.importFile file _ _) fun m => ?_
  split
  · exact Keeps.pure m
  · exact Keeps.bind (Keeps.modify fun d => h.cache d _) fun _ => Keeps.pure m

end Undisturbed

end Atlas
