import Atlas.EngineRule

/-!
# A download among other transfers

`trySource` and `downloadArtifact` once more, with what the engine's own account of them
does not speak of: the results that other transfers record while a download is at work, the
times at which streams are opened, and where in the quarantine a file is put.

Where nobody else records a result and a file that is moved has a name to be moved to, they
do to the disk what those do (`visitDownload_projects`).
-/

namespace Atlas

open Text Program

/-! ## Other transfers -/

/-- How an attempt at a source ended, as it is recorded; a corrupt file counts against a
source more than a failed connection. -/
inductive Outcome where
  | success
  | networkFailure
  | integrityFailure
  deriving DecidableEq, Repr

/-- A result that a transfer records, of its own or of another's work. -/
structure SourceResult where
  sourceId : Text
  outcome : Outcome
  /-- The clock when it is recorded, in seconds. -/
  now : ℕ
  deriving DecidableEq, Repr

/-- The health rows after a result, with its own time; only success and integrity are passed
on, so that any other failure is an ordinary one. -/
def SourceResult.record (rows : List SourceHealth) (r : SourceResult) : List SourceHealth :=
  Db.recordSourceResult r.sourceId (r.outcome = .success) (r.outcome = .integrityFailure) r.now
    rows

/-- Some time that passes: the results others record in it, and the clock at its end. -/
structure Gap where
  others : List SourceResult
  now : ℕ

/-! ## The state -/

/-- The opening of a stream, with what the health table said of its source at that time. -/
structure StreamOpening where
  sourceId : Text
  now : ℕ
  /-- The source's row at this time. -/
  health : SourceHealth
  /-- What others have recorded since the source was checked. -/
  since : List SourceResult

/-- A stream that failed, and the partial it left, which is nothing when there was no
partial by then. -/
structure StreamFailure where
  error : Error
  cells : Option (List Cell)
  deriving DecidableEq, Repr

/-- A row of `quarantine_records`: what was moved where, and why. -/
structure QuarantineRow where
  downloadId : Text
  artifactPath : Text
  sourceId : Option Text
  reason : Text
  path : Text
  deriving DecidableEq, Repr

/-- The store, with the files of the quarantine, and a record of the streams. -/
structure Session where
  disk : Disk
  /-- The files in the quarantine's directories, by path. -/
  files : Text → Option (List Cell)
  /-- The quarantines of this process. -/
  seq : ℕ
  quarantine : List QuarantineRow
  /-- What others have recorded since the last check. -/
  since : List SourceResult
  openings : List StreamOpening
  failures : List StreamFailure

namespace Session

/-- Over a fresh installation, with nothing opened and nothing failed. -/
def empty : Session := ⟨Disk.empty, fun _ => none, 0, [], [], [], []⟩

/-- Run a program of the engine on the session's disk; what the session notes stays. -/
def onDisk {α : Type} (x : Program Disk Error α) : Program Session Error α := fun s =>
  ((x s.disk).1, { s with disk := (x s.disk).2 })

/-- Others record their results while this transfer waits. -/
def record (others : List SourceResult) (s : Session) : Session :=
  { s with
    disk := { s.disk with sourceHealth := others.foldl SourceResult.record s.disk.sourceHealth }
    since := s.since ++ others }

/-- The source's row, or a blank one where it has none yet. -/
def health (sourceId : Text) (s : Session) : SourceHealth :=
  Db.getSourceHealth sourceId s.disk.sourceHealth

/-- A stream is opened, and the session notes the source's row as it is then. -/
def noteOpening (sourceId : Text) (now : ℕ) (s : Session) : Session :=
  { s with openings := s.openings ++ [⟨sourceId, now, s.health sourceId, s.since⟩] }

/-- A stream failed, and the session notes the error and the partial as they are then. -/
def noteFailure (e : Error) (temp : Text) (s : Session) : Session :=
  { s with failures := s.failures ++ [⟨e, s.disk.temps temp⟩] }

end Session

open Session

/-! ## Quarantine -/

/-- What moving a file into the quarantine meets: the clock that names the directory, and
whether the system refuses. -/
structure Move where
  /-- The clock, in milliseconds. -/
  millis : ℕ
  /-- What the system says when it cannot be moved. -/
  refusal : Text

/-- A directory of its own: a counter is appended, so that two quarantines in one
millisecond do not share one. -/
def newQuarantineDir (downloadId : Text) (millis : ℕ) : Program Session Error Text := do
  let s ← get
  modify fun s => { s with seq := s.seq + 1 }
  pure ("quarantine/".toList ++ downloadId ++ "-".toList ++ (toString millis).toList ++
    "-".toList ++ (toString s.seq).toList)

/-- A label that names something in a directory, and not the directory, what is above it or
below it. -/
def namesFile (label : Text) : Bool :=
  !label.isEmpty && label ≠ ".".toList && label ≠ "..".toList && !label.contains '/'

/-- Move bytes into quarantine rather than deleting them; a file that is missing, or cannot
be moved, is an error. -/
def quarantineFile (downloadId src label : Text) (move : Move) : Program Session Error Text := do
  let dir ← newQuarantineDir downloadId move.millis
  let dest := dir ++ "/".toList ++ label
  let s ← get
  match s.disk.temps src with
  | none => pure dest
  | some cells =>
    if namesFile label then do
      -- renamed, or copied and removed where the file cannot be renamed
      modify fun s => { s with
        disk := s.disk.setTemp src none
        files := Function.update s.files dest (some cells) }
      pure dest
    else throw (.fs dest move.refusal)

/-- What a quarantined file is called: by whichever digest comes first; it is cut to its
first characters, and can be empty for a file only git knows. -/
def quarantineLabel (artifact : Artifact) : Text :=
  if artifact.hashes.hasBlake3 then short artifact.hashes.blake3
  else short artifact.hashes.sha256

variable (D : Digests)

/-- Poisoned bytes: quarantine them, and record what they were and whose; the record is
written after the move, so that a move that fails leaves none. -/
def quarantinePartial (t : Target) (e : Error) (move : Move) : Program Session Error Unit := do
  let s ← get
  onDisk (modify fun d => d.note (.blamed t.sourceId ((d.temps t.temp).getD [])))
  let path ← quarantineFile t.downloadId t.temp (quarantineLabel t.artifact) move
  modify fun s' => { s' with
    disk := { s'.disk with
      quarantine := s'.disk.quarantine ++
        [⟨t.downloadId, t.artifact.path, some t.sourceId, e.display, s.disk.temps t.temp⟩] }
    quarantine := s'.quarantine ++
      [⟨t.downloadId, t.artifact.path, some t.sourceId, e.display, path⟩] }

/-! ## One source -/

/-- What visiting a source meets, with the time that passes before each of its connections. -/
structure SourceVisit where
  run : SourceRun
  /-- The time before each connection of a segmented transfer is opened. -/
  connections : ℕ → Gap
  /-- The time before each attempt's stream is opened. -/
  gaps : ℕ → Gap
  moves : ℕ → Move

/-- Whether an attempt comes to opening its stream: it does not if the user cancels while
the partial is read. -/
def opensStream (t : Target) (attempt : Attempt) (d : Disk) : Bool :=
  match (claimPartial t >>= prepareResume D t attempt.cancelPolls) d with
  | (.ok _, _) => true
  | _ => false

/-- An attempt at a source, after some time in which others may have recorded results. -/
def visitStream (t : Target) (attempt : Attempt) (gap : Gap) :
    Program Session Error BlobMeta := do
  modify (record gap.others)
  let s ← get
  whenever (opensStream D t attempt s.disk) (modify (noteOpening t.sourceId gap.now))
  onDisk (streamOnce D t attempt)

/-- The stream attempts at one source, `retries` of them after a transient failure. -/
def visitAttempts (t : Target) (visit : SourceVisit) : ℕ → ℕ → Program Session Error BlobMeta
  | retries, n => do
    let r ← result (visitStream D t (visit.run.attempts n) (visit.gaps n))
    match r with
    | .ok m => pure m
    | .error e => do
      modify (noteFailure e t.temp)
      if e = .cancelled then throw e
      else do
        onDisk (modify (recordResult t.sourceId false e.blames (visit.run.attempts n).now))
        if e.blames then do
          quarantinePartial t e (visit.moves n)
          throw e
        else
          match retries with
          | 0 => throw e
          | retries + 1 => if e.isRetriable then visitAttempts t visit retries (n + 1) else throw e

/-- How many connections a segmented transfer opens, none where it would be only one. -/
def segmentCount (t : Target) (connections : ℕ) : ℕ :=
  if hn : max (min connections (max (t.total / SEGMENT_MIN_BYTES) 1)) 1 < 2 then 0
  else (segmentRanges t.total _ (Target.segment_pos hn) 0).length

/-- A segmented transfer: its connections are opened one after the other; each opening is
noted, with what other transfers recorded before it. -/
def visitSegments (t : Target) (visit : SourceVisit) : Program Session Error BlobMeta := do
  (List.range (segmentCount t visit.run.connections)).forM fun k =>
    modify fun s => noteOpening t.sourceId (visit.connections k).now
      (record (visit.connections k).others s)
  onDisk (streamSegmented D t visit.run.connections visit.run.segmented)

/-- Attempt to fetch an artifact from a single source: in segments where that can be done,
and as a single stream otherwise. -/
def visitSource (maxAttempts : ℕ) (t : Target) (visit : SourceVisit) :
    Program Session Error BlobMeta :=
  match visit.run.preflight with
  | .error e => throw e.error
  | .ok () => do
    let s ← get
    if segmentable t visit.run s.disk then do
      let r ← result (visitSegments D t visit)
      match r with
      | .ok m => pure m
      | .error e =>
        if e = .cancelled then throw e
        else do
          onDisk (modify (truncateTo t.temp 0))
          visitAttempts D t visit (maxAttempts - 1) 0
    else visitAttempts D t visit (maxAttempts - 1) 0

/-! ## One artifact -/

/-- One source of a plan, and what happens when its turn comes. -/
structure PlannedVisit where
  source : Source
  cancelled : Bool
  /-- The time before the ban check. -/
  check : Gap
  visit : SourceVisit

/-- The same visit without what others do, as the engine's own loop takes it. -/
def PlannedVisit.planned (p : PlannedVisit) : PlannedSource :=
  ⟨p.source, p.cancelled, p.check.now, p.visit.run⟩

/-- Go through the sources of the plan, each checked for a ban when its turn comes. -/
def visitSources (ctx : LoopContext) : List PlannedVisit → Option Text → Option Error →
    Program Session Error ArtifactOutcome
  | [], _, lastErr => do
    onDisk (modify fun d => { d with
      downloads := Db.setDownloadState ctx.downloadId "failed".toList d.downloads })
    throw (lastErr.getD (.noEligibleSource ctx.artifact.path))
  | planned :: rest, partialOwner, lastErr =>
    if planned.cancelled then
      onDisk (finishCancelled ctx.discard ctx.downloadId ctx.temp)
    else do
      modify (record planned.check.others)
      let sourceId := planned.source.sourceId
      let s ← get
      if banActive planned.check.now (s.health sourceId) then
        visitSources ctx rest partialOwner lastErr
      else do
        modify fun s => { s with since := [] }
        onDisk (whenever (ctx.chunkTree.isNone ∧ partialOwner.any (· ≠ sourceId)) <|
          modify (truncateTo ctx.temp 0))
        let r ← result (visitSource D ctx.maxAttempts (ctx.target planned.source) planned.visit)
        match r with
        | .ok m => do
          onDisk (modify fun d => { d with
            downloads := Db.setDownloadState ctx.downloadId "complete".toList d.downloads
            cache := finalizeBlob D ctx.artifact m ctx.buildsTree d.cache })
          pure ⟨ctx.artifact.path, m.blake3, false, some sourceId, m.sizeBytes⟩
        | .error e =>
          if e = .cancelled then onDisk (finishCancelled ctx.discard ctx.downloadId ctx.temp)
          else do
            let s ← get
            visitSources ctx rest (if 0 < s.disk.tempLen ctx.temp then some sourceId else none)
              (some e)

/-- What one call of `download_artifact` meets, among other transfers; the sources are
visited in the order of the plan, each with what it meets there. -/
structure DownloadVisit where
  cancelled : Bool
  discard : Bool
  plan : List PlannedVisit
  excluded : Text
  buildsTree : Bool

/-- The same download without what others do, as the engine's own call takes it. -/
def DownloadVisit.run (v : DownloadVisit) : DownloadRun :=
  ⟨v.cancelled, v.discard, v.plan.map PlannedVisit.planned, v.excluded, v.buildsTree⟩

/-- Fetch from the sources of the plan, after adopting or clearing the partial that is there. -/
def visitTransfer (maxAttempts : ℕ) (manifestId : Text) (artifact : Artifact)
    (v : DownloadVisit) : Program Session Error ArtifactOutcome := do
  let downloadId := artifactDownloadId D manifestId artifact.path
  onDisk (modify fun d => { d with
    downloads := Db.upsertDownload downloadId manifestId artifact.path "running".toList
      artifact.sizeBytes d.downloads })
  let s ← get
  let chunkTree := cachedChunkTree D s.disk.cache artifact
  let key := if artifact.hashes.hasBlake3 then artifact.hashes.blake3
    else artifact.hashes.sha256
  let temp := Cas.newTempPath downloadId (short key)
  let partialOwner ← onDisk (adoptPartial chunkTree temp downloadId)
  visitSources D ⟨manifestId, artifact, downloadId, temp, chunkTree, maxAttempts, v.discard,
    v.buildsTree⟩ v.plan partialOwner none

/-- Make an artifact's bytes present in the store: from the cache if they are there, and
else from a source. -/
def visitDownload (maxAttempts : ℕ) (manifestId : Text) (artifact : Artifact)
    (v : DownloadVisit) : Program Session Error ArtifactOutcome := do
  let s ← get
  match cachedBlake3 s.disk.cache artifact with
  | some blake3 => do
    onDisk (modify fun d => { d with
      cache := upsertRow ⟨blake3, artifact.hashes.sha256, artifact.sizeBytes⟩ d.cache })
    pure ⟨artifact.path, blake3, true, none, artifact.sizeBytes⟩
  | none =>
    if v.cancelled then throw (if v.discard then .stopped else .cancelled)
    else if v.plan.isEmpty then
      throw (.noEligibleSource (artifact.path ++ " (".toList ++ v.excluded ++ ")".toList))
    else visitTransfer D maxAttempts manifestId artifact v

/-! ## Nobody else -/

/-- Nobody else records a result while the source is visited. -/
structure SourceVisit.Alone (v : SourceVisit) : Prop where
  connections : ∀ k, (v.connections k).others = []
  gaps : ∀ k, (v.gaps k).others = []

/-- No other transfer records anything while the source is visited, so that the health rows
change by this download alone. -/
def PlannedVisit.Alone (p : PlannedVisit) : Prop :=
  p.check.others = [] ∧ p.visit.Alone

variable {D} {t : Target} {visit : SourceVisit}

theorem onDisk_projects {α : Type} (x : Program Disk Error α) :
    Projects Session.disk (onDisk x) x := fun _ => rfl

/-- With a name to be moved to, the partial goes as the engine says. -/
theorem quarantinePartial_projects (hlabel : namesFile (quarantineLabel t.artifact) = true)
    (e : Error) (move : Move) :
    Projects Session.disk (quarantinePartial t e move) (quarantineTemp t e) := by
  intro s
  unfold quarantinePartial quarantineFile newQuarantineDir quarantineTemp Cas.quarantine
  simp only [bind_apply, get_apply, modify_apply, pure_apply, andThen_ok, onDisk]
  cases htemp : s.disk.temps t.temp with
  | none =>
    have hsame : (s.disk.note (.blamed t.sourceId [])).setTemp t.temp none =
        s.disk.note (.blamed t.sourceId []) := by
      show { s.disk.note _ with temps := Function.update s.disk.temps t.temp none } = _
      rw [← htemp, Function.update_eq_self]
      rfl
    have hnoted : (s.disk.note (.blamed t.sourceId [])).temps t.temp = none := htemp
    simp only [Option.getD_none, hsame, hnoted]
    rfl
  | some cells =>
    have hnoted : (s.disk.note (.blamed t.sourceId cells)).temps t.temp = some cells := htemp
    simp only [Option.getD_some, hnoted, if_pos hlabel]
    rfl

theorem record_projects {others : List SourceResult} (h : others = []) :
    Projects Session.disk (modify (record others) : Program Session Error Unit) (pure ()) := by
  rw [h]
  exact Projects.modify_beside fun _ => rfl

theorem visitStream_projects (attempt : Attempt) {gap : Gap} (h : gap.others = []) :
    Projects Session.disk (visitStream D t attempt gap) (streamOnce D t attempt) := by
  refine Projects.bind_beside (record_projects h) (Projects.get_bind_beside fun s => ?_)
  refine Projects.bind_beside (Projects.whenever_beside ?_) (onDisk_projects _)
  exact Projects.modify_beside fun _ => rfl

/-- Recording a failure, and what comes after it. -/
theorem visitFailure_projects (hlabel : namesFile (quarantineLabel t.artifact) = true)
    (e : Error) (now : ℕ) (move : Move) {x : Program Session Error BlobMeta}
    {y : Program Disk Error BlobMeta} (hgood : e.blames = false → Projects Session.disk x y)
    (hbad : e.blames = true → y = throw e) :
    Projects Session.disk
      (onDisk (modify (recordResult t.sourceId false e.blames now)) >>= fun _ =>
        if e.blames then quarantinePartial t e move >>= fun _ => throw e else x)
      (recordFailure t e now >>= fun _ => y) := by
  have hassoc : (recordFailure t e now >>= fun _ => y) =
      (modify (recordResult t.sourceId false e.blames now) >>= fun _ =>
        whenever e.blames (quarantineTemp t e) >>= fun _ => y) := rfl
  rw [hassoc]
  refine Projects.bind (onDisk_projects _) fun _ => ?_
  cases hblames : e.blames with
  | true =>
    rw [if_pos rfl, whenever_true rfl, hbad hblames]
    exact Projects.bind (quarantinePartial_projects hlabel e move) fun _ => Projects.throw e
  | false =>
    rw [if_neg Bool.false_ne_true, whenever_false Bool.false_ne_true]
    exact hgood hblames

/-- Who is blamed is not tried again. -/
theorem Error.isRetriable_of_blames {e : Error} (h : e.blames = true) :
    e.isRetriable = false := by
  unfold Error.isRetriable
  rw [h]
  rfl

theorem visitAttempts_projects (hlabel : namesFile (quarantineLabel t.artifact) = true)
    (h : visit.Alone) (retries n : ℕ) :
    Projects Session.disk (visitAttempts D t visit retries n)
      (attemptLoop D t visit.run retries n) := by
  induction retries generalizing n with
  | zero =>
    unfold visitAttempts attemptLoop
    refine Projects.bind (Projects.result (visitStream_projects _ (h.gaps n))) fun r => ?_
    cases r with
    | ok m => exact Projects.pure m
    | error e =>
      refine Projects.bind_beside (Projects.modify_beside fun _ => rfl) ?_
      refine Projects.ite (fun _ => Projects.throw e) fun _ => ?_
      exact visitFailure_projects hlabel e _ _ (fun _ => Projects.throw e) fun _ => rfl
  | succ retries ih =>
    unfold visitAttempts attemptLoop
    refine Projects.bind (Projects.result (visitStream_projects _ (h.gaps n))) fun r => ?_
    cases r with
    | ok m => exact Projects.pure m
    | error e =>
      refine Projects.bind_beside (Projects.modify_beside fun _ => rfl) ?_
      refine Projects.ite (fun _ => Projects.throw e) fun _ => ?_
      refine visitFailure_projects hlabel e _ _ (fun _ => ?_) fun hblames => ?_
      · exact Projects.ite (fun _ => ih (n + 1)) fun _ => Projects.throw e
      · rw [Error.isRetriable_of_blames hblames]
        rfl

theorem visitSegments_projects (h : visit.Alone) :
    Projects Session.disk (visitSegments D t visit)
      (streamSegmented D t visit.run.connections visit.run.segmented) := by
  refine Projects.bind_beside (Projects.forM_beside (fun k => ?_) _) (onDisk_projects _)
  rw [h.connections k]
  exact Projects.modify_beside fun _ => rfl

/-- **A visit does what trying the source does**, if nobody else records a result meanwhile. -/
theorem visitSource_projects (hlabel : namesFile (quarantineLabel t.artifact) = true)
    (h : visit.Alone) (maxAttempts : ℕ) :
    Projects Session.disk (visitSource D maxAttempts t visit)
      (trySource D maxAttempts t visit.run) := by
  unfold visitSource trySource
  cases visit.run.preflight with
  | error e => exact Projects.throw _
  | ok u =>
    refine Projects.get_bind fun s => Projects.ite (fun _ => ?_) fun _ =>
      visitAttempts_projects hlabel h _ 0
    refine Projects.bind (Projects.result (visitSegments_projects h)) fun r => ?_
    cases r with
    | ok m => exact Projects.pure m
    | error e =>
      refine Projects.ite (fun _ => Projects.throw e) fun _ => ?_
      exact Projects.bind (onDisk_projects _) fun _ => visitAttempts_projects hlabel h _ 0

theorem visitSources_projects {ctx : LoopContext}
    (hlabel : namesFile (quarantineLabel ctx.artifact) = true) {plan : List PlannedVisit}
    (h : ∀ p ∈ plan, p.Alone) (partialOwner : Option Text) (lastErr : Option Error) :
    Projects Session.disk (visitSources D ctx plan partialOwner lastErr)
      (sourceLoop D ctx (plan.map PlannedVisit.planned) partialOwner lastErr) := by
  induction plan generalizing partialOwner lastErr with
  | nil => exact Projects.bind (onDisk_projects _) fun _ => Projects.throw _
  | cons p rest ih =>
    obtain ⟨⟨hcheck, hvisit⟩, hrest⟩ := List.forall_mem_cons.mp h
    refine Projects.ite (fun _ => onDisk_projects _) fun _ => ?_
    refine Projects.bind_beside (record_projects hcheck) (Projects.get_bind fun s => ?_)
    refine Projects.ite (fun _ => ih hrest _ _) fun _ => ?_
    refine Projects.bind_beside (Projects.modify_beside fun _ => rfl) ?_
    refine Projects.bind (onDisk_projects _) fun _ => ?_
    have hsource := visitSource_projects (D := D) (t := ctx.target p.source) hlabel hvisit
      ctx.maxAttempts
    refine Projects.bind (Projects.result hsource) fun r => ?_
    cases r with
    | ok m => exact Projects.bind (onDisk_projects _) fun _ => Projects.pure _
    | error e =>
      refine Projects.ite (fun _ => onDisk_projects _) fun _ => ?_
      exact Projects.get_bind fun s => ih hrest _ _

/-- **A download among no other transfers is the engine's download**, of every artifact
whose partial has a name in the quarantine. -/
theorem visitDownload_projects {artifact : Artifact}
    (hlabel : namesFile (quarantineLabel artifact) = true) {v : DownloadVisit}
    (h : ∀ p ∈ v.plan, p.Alone) (maxAttempts : ℕ) (manifestId : Text) :
    Projects Session.disk (visitDownload D maxAttempts manifestId artifact v)
      (downloadArtifact D maxAttempts manifestId artifact v.run) := by
  refine Projects.get_bind fun s => ?_
  cases hcached : cachedBlake3 s.disk.cache artifact with
  | some blake3 => exact Projects.bind (onDisk_projects _) fun _ => Projects.pure _
  | none =>
    refine Projects.ite (fun _ => Projects.throw _) fun _ => ?_
    have hempty : v.run.plan.isEmpty = v.plan.isEmpty := List.isEmpty_map
    show Projects Session.disk _ (if v.run.plan.isEmpty then _ else _)
    rw [hempty]
    refine Projects.ite (fun _ => Projects.throw _) fun _ => ?_
    refine Projects.bind (onDisk_projects _) fun _ => Projects.get_bind fun s => ?_
    refine Projects.bind (onDisk_projects _) fun partialOwner => ?_
    refine visitSources_projects ?_ h partialOwner none
    exact hlabel

end Atlas
