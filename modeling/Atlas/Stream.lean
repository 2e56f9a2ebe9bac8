import Atlas.Store
import Atlas.Verify

/-!
# One streaming attempt

`streamOnce` fetches an artifact from one source into its temp file: it
resumes from whatever bytes are there, verifies each byte before writing it,
and commits the file once everything verified. It is cut here where its loop
is: `openStream` is everything before the first chunk, `streamStep` is one
turn of the loop, `verifyStream` is what happens when the stream ends, and
`streamToCommit`, the three in sequence, is everything up to the hand-over to
`commitBlob`.
-/

namespace Atlas

open Text Program

/-- Bytes between two refreshes of the downloads row, 4 MiB. -/
def PROGRESS_BYTES : ℕ := 4 * 1024 * 1024

/-- Free space that a transfer of unknown size leaves alone (1 GiB). -/
def UNKNOWN_SIZE_DISK_MARGIN : ℕ := 1 <<< 30

/-- Cut or extend a partial file, if there is one; what an extension adds are holes, which
no source has written. -/
def truncateTo (temp : Text) (len : ℕ) (d : Disk) : Disk :=
  match d.temps temp with
  | none => d
  | some file => d.setTemp temp (some (SparseFile.setLen Cell.hole len file))

/-- Open a partial file for writing, creating it if needed; one that is there is opened as
it is, and not cut. -/
def createTemp (temp : Text) (d : Disk) : Disk :=
  match d.temps temp with
  | none => d.setTemp temp (some [])
  | some _ => d

/-- Write what a source delivered at an offset of its temp file. -/
def writeTemp (temp sourceId : Text) (offset : ℕ) (data : Bytes) (d : Disk) : Disk :=
  match d.temps temp with
  | none => d
  | some file =>
    d.setTemp temp
      (some (SparseFile.writeAt Cell.hole offset (cellsBy sourceId data) file))

/-- Refresh the progress and the writer of a downloads row; it writes both, so that the row
names whoever wrote last. -/
def refreshDownload (downloadId : Text) (bytesDone : ℕ) (sourceId : Text) (d : Disk) :
    Disk :=
  { d with
    downloads := Db.updateDownloadProgress downloadId bytesDone (some sourceId) d.downloads }

/-- Record a success or failure of a source, which may set or clear a ban. -/
def recordResult (sourceId : Text) (success integrity : Bool) (now : ℕ) (d : Disk) :
    Disk :=
  { d with
    sourceHealth := Db.recordSourceResult sourceId success integrity now d.sourceHealth }

/-- What one attempt is about: the artifact and its chunk tree, the source, and
the temp file and downloads row it works on. -/
structure Target where
  artifact : Artifact
  source : Source
  temp : Text
  downloadId : Text
  chunkTree : Option ChunkTree

namespace Target

/-- The declared size, 0 when it is unknown, and then nothing is refused for its length. -/
def total (t : Target) : ℕ := t.artifact.sizeBytes

/-- The id of the source, under which its results are recorded. -/
def sourceId (t : Target) : Text := t.source.sourceId

/-- A verifier for the artifact that has seen nothing, under the digests, the size and the
tree that the artifact declares. -/
def fresh (t : Target) : StreamingVerifier :=
  StreamingVerifier.new t.artifact.hashes t.artifact.sizeBytes t.chunkTree t.artifact.path

end Target

variable (D : Digests) (t : Target)

/-! ## Resuming -/

/-- Feed a verifier the first `remaining` bytes of a file, a buffer at a time,
watching the cancel flag. `ok none` says that the prefix is short or corrupt,
an error that the user cancelled. -/
def readPrefix (polls : ℕ → Bool) (v : StreamingVerifier) (file : Bytes)
    (remaining reads : ℕ) : Except Unit (Option StreamingVerifier) :=
  if remaining = 0 then .ok (some v)
  else if polls reads then .error ()
  else
    let buf := file.take (min READ_BUFFER remaining)
    if buf = [] then .ok none
    else match v.feed D buf with
      | .error _ => .ok none
      | .ok v => readPrefix polls v (file.drop buf.length) (remaining - buf.length) (reads + 1)
termination_by remaining
decreasing_by
  rename_i _ _ hbuf
  have hlen : 0 < (file.take (min READ_BUFFER remaining)).length :=
    List.length_pos_iff.mpr hbuf
  omega

/-- Build a streaming verifier that has consumed exactly `[0, want)` of the
temp, with the offset to resume from. A corrupt or too-short prefix truncates
the temp to 0 and returns a fresh verifier with offset 0. -/
def prepareResume (polls : ℕ → Bool) (want : ℕ) :
    Program Disk Error (StreamingVerifier × ℕ) :=
  if want = 0 then pure (t.fresh, 0)
  else do
    let d ← get
    let validated : Except Unit (Option StreamingVerifier) := match d.temps t.temp with
      | none => .ok none
      | some file => readPrefix D polls t.fresh (bytesOf file) want 0
    match validated with
    | .ok (some v) => pure (v, want)
    | .ok none =>
      modify (truncateTo t.temp 0)
      pure (t.fresh, 0)
    | .error () => throw .cancelled

/-! ## The loop -/

/-- What the read loop carries: the verifier, the bytes in the temp, and the
progress at the last refresh of the downloads row. -/
structure StreamState where
  verifier : StreamingVerifier
  bytesDone : ℕ
  lastEmit : ℕ

/-- How many bytes of a temp of some length can be resumed: all of them, or none. -/
def resumeLength (total tempLen : ℕ) : ℕ :=
  if 0 < tempLen ∧ tempLen < total then tempLen else 0

/-- Discard a leftover that cannot be resumed, and say how many bytes of the
temp the attempt wants to resume. -/
def claimPartial : Program Disk Error ℕ := do
  let d ← get
  let tempLen := d.tempLen t.temp
  whenever ((0 < t.total ∧ t.total ≤ tempLen) ∨ (t.total = 0 ∧ 0 < tempLen)) <|
    modify (truncateTo t.temp 0)
  let want := resumeLength t.total tempLen
  whenever (0 < want) <|
    modify fun d => d.note (.resumed t.sourceId ((d.temps t.temp).getD []))
  pure want

/-- Reconcile with where the stream starts: a server that ignored our range
restarts at 0, and the temp and the verifier are re-aligned to what comes
before the start. -/
def realign (polls : ℕ → Bool) (effectiveStart resumeFrom : ℕ)
    (verifier : StreamingVerifier) : Program Disk Error StreamingVerifier :=
  if effectiveStart ≠ resumeFrom then do
    modify (truncateTo t.temp effectiveStart)
    let (v2, _) ← prepareResume D t polls effectiveStart
    pure v2
  else pure verifier

/-- Everything before the first chunk: discard a leftover that cannot be
resumed, validate the prefix that can, open the stream there, and start over
with the temp and the verifier if the server does. -/
def openStream (attempt : Attempt) : Program Disk Error (Opening × StreamState) := do
  let want ← claimPartial t
  -- validate the prefix before opening the stream, so that the offset we ask
  -- for always corresponds to bytes the verifier trusts
  let (verifier, resumeFrom) ← prepareResume D t attempt.cancelPolls want
  match attempt.opened with
  | .error e => throw e.error
  | .ok opening =>
    let effectiveStart := min (opening.effectiveStart resumeFrom) t.total
    let verifier ← realign D t attempt.cancelPolls effectiveStart resumeFrom verifier
    modify (createTemp t.temp)
    modify fun d => d.note (.opened t.sourceId
      ((Db.getDownload t.downloadId d.downloads).bind DownloadRow.sourceId)
      ((d.temps t.temp).getD []) t.total opening)
    pure (opening, ⟨verifier, effectiveStart, 0⟩)

/-- When the size is unknown, writes are bounded by the free space minus a
margin. A failed query bounds nothing. -/
def unknownSizeCeiling (opening : Opening) (start : ℕ) : Option ℕ :=
  if t.total = 0 then
    opening.availableSpace.map fun avail => start + (avail - UNKNOWN_SIZE_DISK_MARGIN)
  else none

/-- Write a verified chunk and account for it; a write that fails or dies may have landed a
part of it. -/
def writeChunk (st : StreamState) (verifier : StreamingVerifier) (chunk : Bytes) :
    WriteOutcome → Program Disk Error StreamState
  | .failed landed message => do
    modify (writeTemp t.temp t.sourceId st.bytesDone (chunk.take landed))
    throw (.fs t.temp message)
  | .died landed => do
    modify (writeTemp t.temp t.sourceId st.bytesDone (chunk.take landed))
    die
  | .written => do
    modify (writeTemp t.temp t.sourceId st.bytesDone chunk)
    let bytesDone := st.bytesDone + chunk.length
    if PROGRESS_BYTES < bytesDone - st.lastEmit ∨ bytesDone = t.total then do
      modify (refreshDownload t.downloadId bytesDone t.sourceId)
      pure ⟨verifier, bytesDone, bytesDone⟩
    else pure ⟨verifier, bytesDone, st.lastEmit⟩

/-- One turn of the read loop. A pressed Pause or Stop keeps the partial for a
later attempt; a chunk is checked against the declared size, the ceiling and
its leaves before it is written. -/
def streamStep (ceiling : Option ℕ) (st : StreamState) (ev : StreamEvent) :
    Program Disk Error StreamState :=
  if ev.cancelled then do
    modify (refreshDownload t.downloadId st.bytesDone t.sourceId)
    throw .cancelled
  else match ev.item with
    | .error e => throw e.error
    | .ok chunk => do
      modify (Disk.note (.delivered t.sourceId st.bytesDone chunk))
      if 0 < t.total ∧ t.total < st.bytesDone + chunk.length then
        throw (.transport t.sourceId
          (.integrity "source sent more bytes than declared size".toList))
      else if ceiling.any (fun c => c < st.bytesDone + chunk.length) then
        throw (.transport t.sourceId
          (.integrity "unknown-size source would exhaust free disk space".toList))
      else match st.verifier.feed D chunk with
        | .error e => throw e
        | .ok verifier => writeChunk t st verifier chunk ev.write

/-- The end of the stream: everything must have come, and must verify. Returns
the digests and the size to commit under; a size that was unknown up front is
what was received. -/
def verifyStream (st : StreamState) : Program Disk Error (Hashes × ℕ) :=
  if st.bytesDone < t.total then
    throw (.transport t.sourceId (.other ("incomplete: ".toList ++
      (toString st.bytesDone).toList ++ "/".toList ++ (toString t.total).toList ++
      " bytes (will resume)".toList)))
  else match st.verifier.finish D with
    | .error e => throw e
    | .ok hashes => pure (hashes, if 0 < t.total then t.total else st.bytesDone)

/-- Everything up to the commit: what is returned is what the temp is handed to
`commitBlob` with. -/
def streamToCommit (attempt : Attempt) : Program Disk Error (Hashes × ℕ) := do
  let (opening, st) ← openStream D t attempt
  let st' ← opening.events.foldlM
    (streamStep D t (unknownSizeCeiling t opening st.bytesDone)) st
  match opening.ending with
  | .died => die
  | .endOfStream => verifyStream D t st'

/-- One streaming attempt: resume from any existing temp bytes, verify each
byte, write to the temp file, and on completion verify and commit. -/
def streamOnce (attempt : Attempt) : Program Disk Error BlobMeta := do
  let (hashes, size) ← streamToCommit D t attempt
  let m ← Cas.commitBlob t.temp hashes size
  modify (recordResult t.sourceId true false attempt.now)
  pure m

end Atlas
