import Atlas.Stream

/-!
# Segmented transfers

A large file from a range-capable server is fetched over several connections
at once: the temp is sized up front, each connection writes its own range of
it, and the whole file is verified before it is committed. The connections run
concurrently on one task, so what happens is an interleaving of their turns;
`streamSegmented` is a function of that interleaving.

Until every connection is done the temp has holes. An interrupted segmented
transfer empties it, one that fails leaves that to its caller, and one that
dies with the process leaves it at its full length.
-/

namespace Atlas

open Text Program

/-- A segment has at least this many bytes (32 MiB), so that a small file is not cut into as
many as there are connections. -/
def SEGMENT_MIN_BYTES : ℕ := 32 * 1024 * 1024

variable (D : Digests) (t : Target)

/-- Contiguous ranges of `seg` bytes from `start` to the end of the file. -/
def segmentRanges (total seg : ℕ) (hseg : 0 < seg) (start : ℕ) : List (ℕ × ℕ) :=
  if start < total then
    (start, min (start + seg) total) :: segmentRanges total seg hseg (min (start + seg) total)
  else []
termination_by total - start
decreasing_by
  omega

/-- What the connections of a segmented transfer share: which are open, how
many bytes each has, and the progress of all of them together. -/
structure SegmentState where
  opened : ℕ → Bool
  got : ℕ → ℕ
  progressed : ℕ
  lastEmit : ℕ

/-- One turn of one connection. It writes at most the bytes its own range
owns, and a connection that has them all takes no more turns. -/
def segmentStep (ranges : List (ℕ × ℕ)) (st : SegmentState) (turn : ℕ × SegmentInput) :
    Program Disk Error SegmentState :=
  match ranges[turn.1]? with
  | none => pure st
  | some (start, stop) =>
    let segLen := stop - start
    match turn.2 with
    | .openFailed e => if st.opened turn.1 then pure st else throw e.error
    | .opened honoursRange =>
      if (if honoursRange then start else 0) ≠ start then
        throw (.transport t.sourceId (.other "server ignored range request".toList))
      else pure { st with opened := Function.update st.opened turn.1 true }
    | .endOfStream =>
      if st.opened turn.1 ∧ st.got turn.1 < segLen then
        throw (.transport t.sourceId (.other ("segment incomplete: ".toList ++
          (toString (st.got turn.1)).toList ++ "/".toList ++ (toString segLen).toList ++
          " bytes".toList)))
      else pure st
    | .event ev =>
      if !st.opened turn.1 ∨ segLen ≤ st.got turn.1 then pure st
      else if ev.cancelled then throw .cancelled
      else match ev.item with
        | .error e => throw e.error
        | .ok chunk =>
          -- defends against a server ignoring the range end
          let taken := chunk.take (segLen - st.got turn.1)
          let offset := start + st.got turn.1
          do
            modify (Disk.note (.delivered t.sourceId offset taken))
            match ev.write with
            | .failed landed message =>
              modify (writeTemp t.temp t.sourceId offset (taken.take landed))
              throw (.fs t.temp message)
            | .died landed =>
              modify (writeTemp t.temp t.sourceId offset (taken.take landed))
              die
            | .written =>
              modify (writeTemp t.temp t.sourceId offset taken)
              let got := Function.update st.got turn.1 (st.got turn.1 + taken.length)
              let done := st.progressed + taken.length
              if PROGRESS_BYTES < done - st.lastEmit ∨ done = t.total then
                modify (refreshDownload t.downloadId done t.sourceId)
                pure { st with got := got, progressed := done, lastEmit := done }
              else pure { st with got := got, progressed := done }

/-- Whether every connection has all of its range, so that the file can be verified. -/
def segmentsDone (ranges : List (ℕ × ℕ)) (st : SegmentState) : Bool :=
  ranges.zipIdx.all fun ((start, stop), k) => st.opened k && (stop - start ≤ st.got k)

/-- Feed a verifier a whole file, a buffer at a time, watching the cancel flag. -/
def readWhole (polls : ℕ → Bool) (v : StreamingVerifier) (file : Bytes) (reads : ℕ) :
    Except Error StreamingVerifier :=
  if polls reads then .error .cancelled
  else
    let buf := file.take READ_BUFFER
    if buf = [] then .ok v
    else match v.feed D buf with
      | .error e => .error e
      | .ok v => readWhole polls v (file.drop READ_BUFFER) (reads + 1)
termination_by file.length
decreasing_by
  rename_i hbuf
  have hlen : 0 < (file.take READ_BUFFER).length := List.length_pos_iff.mpr hbuf
  rw [List.length_take] at hlen
  rw [List.length_drop]
  omega

/-- Read and verify the whole temp against the artifact's digests and size:
the final gate before a segmented commit. -/
def verifyTempFull (polls : ℕ → Bool) : Program Disk Error Hashes := do
  let d ← get
  match d.temps t.temp with
  | none => throw (.fs t.temp "No such file or directory".toList)
  | some file =>
    let v := StreamingVerifier.new t.artifact.hashes t.artifact.sizeBytes none t.artifact.path
    ofExcept (readWhole D polls v (bytesOf file) 0 >>= StreamingVerifier.finish D)

/-- Discard a segmented transfer's partial on interrupt: empty the sparse temp
and zero the row's progress, so that resuming restarts clean. -/
def resetSegmentedPartial (d : Disk) : Disk :=
  refreshDownload t.downloadId 0 t.sourceId (truncateTo t.temp 0 d)

/-- Size the temp for all segments, which each connection then writes at its own place. -/
def presizeTemp (d : Disk) : Disk := truncateTo t.temp t.total (createTemp t.temp d)

/-- Run the connections. A turn sequence that ends before every connection is
done is one that the process did not survive. -/
def runSegments (run : SegmentedRun) (ranges : List (ℕ × ℕ)) : Program Disk Error Unit := do
  let st ← run.turns.foldlM (segmentStep t ranges) ⟨fun _ => false, fun _ => 0, 0, 0⟩
  if segmentsDone ranges st then pure () else die

/-- With more than one segment there is something to put in each. -/
theorem segment_pos {total connections : ℕ}
    (h : 2 ≤ max (min connections (max (total / SEGMENT_MIN_BYTES) 1)) 1) :
    0 < (total + max (min connections (max (total / SEGMENT_MIN_BYTES) 1)) 1 - 1) /
      max (min connections (max (total / SEGMENT_MIN_BYTES) 1)) 1 := by
  have hsegments : 2 ≤ total / SEGMENT_MIN_BYTES := by omega
  have htotal : 0 < total := by
    by_contra hzero
    rw [Nat.eq_zero_of_not_pos hzero, Nat.zero_div] at hsegments
    exact absurd hsegments (by decide)
  exact Nat.div_pos (by omega) (by omega)

theorem Target.segment_pos {t : Target} {connections : ℕ}
    (h : ¬ max (min connections (max (t.total / SEGMENT_MIN_BYTES) 1)) 1 < 2) :
    0 < (t.total + max (min connections (max (t.total / SEGMENT_MIN_BYTES) 1)) 1 - 1) /
      max (min connections (max (t.total / SEGMENT_MIN_BYTES) 1)) 1 :=
  Atlas.segment_pos (Nat.le_of_not_lt h)

/-- Multi-connection download of one range-capable HTTP source: contiguous
segments fetched concurrently to disjoint offsets of the temp, then the
full-file hash gate. -/
def streamSegmented (connections : ℕ) (run : SegmentedRun) :
    Program Disk Error BlobMeta := do
  -- keep each segment at least `SEGMENT_MIN_BYTES`
  let n := max (min connections (max (t.total / SEGMENT_MIN_BYTES) 1)) 1
  if hn : n < 2 then throw (.other "segmentation not beneficial".toList)
  else
    let ranges := segmentRanges t.total ((t.total + n - 1) / n) (segment_pos (by omega)) 0
    modify (presizeTemp t)
    match ← result (runSegments t run ranges) with
    | .error e =>
      whenever (e = .cancelled) (modify (resetSegmentedPartial t))
      throw e
    | .ok () =>
      if run.cancelledAfter then
        modify (resetSegmentedPartial t)
        throw .cancelled
      else
        let hashes ← verifyTempFull D t run.cancelPolls
        let m ← Cas.commitBlob t.temp hashes t.total
        modify (recordResult t.sourceId true false run.now)
        pure m

end Atlas
