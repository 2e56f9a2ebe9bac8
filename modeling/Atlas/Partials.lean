import Atlas.Engine
import Atlas.StreamInvariant

/-!
# What a download does to its partial

Of everything on disk three things decide who is blamed for what is in a
partial: the file itself, the writer its downloads row names, and what
happened so far. A `PartialView` is these three. Whatever else a download
writes leaves the view alone.

An invariant of the view is proved once for one attempt at one source, and once
for what the loop does between two sources; `PartialInvariant` collects what
has to be shown, and `PartialInvariant.downloadArtifact` is the induction over
attempts, sources and the ways a call can end.
-/

namespace Atlas

open Text Program

/-! ## The view -/

/-- A partial file, the writer its row names, and what happened so far. -/
structure PartialView where
  file : Option (List Cell)
  owner : Option Text
  trace : List Event

namespace PartialView

/-- What is in the file, nothing when there is none, so that a missing file and an empty one
read the same. -/
def cells (v : PartialView) : List Cell := v.file.getD []

/-- The file is cut to nothing, if it is there; the bytes that were there are lost, and the
trace does not change. -/
def cut (v : PartialView) : PartialView := { v with file := v.file.map fun _ => [] }

/-- The file is gone, and the row still names its owner. -/
def gone (v : PartialView) : PartialView := { v with file := none }

/-- The file and its row are gone, as after a discarded download. -/
def discarded (v : PartialView) : PartialView := { v with file := none, owner := none }

/-- A source was blamed, and the file moved away; what it held goes into the trace with the
name of the source. -/
def blamed (sourceId : Text) (v : PartialView) : PartialView :=
  { v with file := none, trace := v.trace ++ [.blamed sourceId v.cells] }

@[simp] theorem cut_trace (v : PartialView) : v.cut.trace = v.trace := rfl

@[simp] theorem cut_cells (v : PartialView) : v.cut.cells = [] := by
  unfold cells cut
  cases v.file <;> rfl

@[simp] theorem gone_cells (v : PartialView) : v.gone.cells = [] := rfl

end PartialView

/-- What the partial of one artifact of one manifest is: the same in every
call, whatever the source. -/
structure Slot where
  artifact : Artifact
  temp : Text
  downloadId : Text
  chunkTree : Option ChunkTree

namespace Slot

/-- What an attempt at a source is about, given the slot it works on. -/
def target (slot : Slot) (source : Source) : Target :=
  ⟨slot.artifact, source, slot.temp, slot.downloadId, slot.chunkTree⟩

/-- What is in the store of a slot: the partial file, who the row says wrote it, and what
happened. -/
def view (slot : Slot) (d : Disk) : PartialView where
  file := d.temps slot.temp
  owner := (Db.getDownload slot.downloadId d.downloads).bind DownloadRow.sourceId
  trace := d.trace

end Slot

/-- The slot of an artifact: the partial its download writes, whose name the manifest and
the digests give. -/
def slotOf (D : Digests) (manifestId : Text) (artifact : Artifact)
    (chunkTree : Option ChunkTree) : Slot where
  artifact := artifact
  temp := Cas.newTempPath (artifactDownloadId D manifestId artifact.path)
    (short (if artifact.hashes.hasBlake3 then artifact.hashes.blake3
      else artifact.hashes.sha256))
  downloadId := artifactDownloadId D manifestId artifact.path
  chunkTree := chunkTree

/-! ## The row -/

/-- A change that keeps the keys of the rows changes the row that is found. -/
theorem Db.getDownload_map {f : DownloadRow → DownloadRow}
    (hf : ∀ row, (f row).downloadId = row.downloadId) (downloadId : Text)
    (rows : List DownloadRow) :
    Db.getDownload downloadId (rows.map f) = (Db.getDownload downloadId rows).map f := by
  unfold Db.getDownload
  rw [List.find?_map]
  congr 1
  refine congrArg (List.find? · rows) ?_
  funext row
  show decide ((f row).downloadId = downloadId) = _
  rw [hf]

/-- The writer a row names survives what does not touch it. -/
theorem Db.owner_map {f : DownloadRow → DownloadRow}
    (hf : ∀ row, (f row).downloadId = row.downloadId)
    (hs : ∀ row, (f row).sourceId = row.sourceId) (downloadId : Text)
    (rows : List DownloadRow) :
    (Db.getDownload downloadId (rows.map f)).bind DownloadRow.sourceId =
      (Db.getDownload downloadId rows).bind DownloadRow.sourceId := by
  rw [Db.getDownload_map hf]
  cases Db.getDownload downloadId rows with
  | none => rfl
  | some row => exact hs row

@[simp] theorem Db.owner_setDownloadState (downloadId downloadId' state : Text)
    (rows : List DownloadRow) :
    (Db.getDownload downloadId' (Db.setDownloadState downloadId state rows)).bind
        DownloadRow.sourceId =
      (Db.getDownload downloadId' rows).bind DownloadRow.sourceId := by
  refine Db.owner_map (fun row => ?_) (fun row => ?_) _ _ <;> split <;> rfl

/-- A row that is added names no writer, and a row that is there keeps its own. -/
@[simp] theorem Db.owner_upsertDownload (downloadId manifestId artifactPath state : Text)
    (bytesTotal : ℕ) (rows : List DownloadRow) :
    (Db.getDownload downloadId (Db.upsertDownload downloadId manifestId artifactPath state
        bytesTotal rows)).bind DownloadRow.sourceId =
      (Db.getDownload downloadId rows).bind DownloadRow.sourceId := by
  unfold Db.upsertDownload
  split
  · refine Db.owner_map (fun row => ?_) (fun row => ?_) _ _ <;> split <;> rfl
  · rename_i hnone
    have hfind : Db.getDownload downloadId rows = none := by
      rw [Db.getDownload, List.find?_eq_none]
      intro row hrow h
      exact hnone (List.any_eq_true.mpr ⟨row, hrow, h⟩)
    have hrow : Db.getDownload downloadId
        (rows ++ [⟨downloadId, manifestId, artifactPath, state, bytesTotal, 0, none⟩]) =
          some ⟨downloadId, manifestId, artifactPath, state, bytesTotal, 0, none⟩ := by
      rw [Db.getDownload] at hfind ⊢
      rw [List.find?_append, hfind, Option.none_or]
      exact List.find?_cons_of_pos (decide_eq_true rfl)
    rw [hrow, hfind]
    rfl

/-- A row that is refreshed names the source that refreshed it, if it is there. -/
theorem Db.owner_updateDownloadProgress (downloadId : Text) (bytesDone : ℕ)
    (sourceId : Option Text) (rows : List DownloadRow) :
    (Db.getDownload downloadId (Db.updateDownloadProgress downloadId bytesDone sourceId
        rows)).bind DownloadRow.sourceId =
      (Db.getDownload downloadId rows).bind fun _ => sourceId := by
  have hkeep : ∀ row : DownloadRow, (if row.downloadId = downloadId then
      { row with bytesDone := bytesDone, sourceId := sourceId } else row).downloadId =
        row.downloadId := by
    intro row
    split <;> rfl
  rw [Db.updateDownloadProgress, Db.getDownload_map hkeep]
  cases hfind : Db.getDownload downloadId rows with
  | none => rfl
  | some row =>
    have hfound := List.find?_some (show rows.find? _ = some row from hfind)
    have hid : row.downloadId = downloadId := of_decide_eq_true hfound
    rw [Option.map_some, if_pos hid]
    rfl

/-- The row that is deleted is gone, and the others are there. -/
theorem Db.getDownload_deleteDownload (downloadId downloadId' : Text)
    (rows : List DownloadRow) :
    Db.getDownload downloadId' (Db.deleteDownload downloadId rows) =
      if downloadId = downloadId' then none else Db.getDownload downloadId' rows := by
  unfold Db.getDownload Db.deleteDownload
  rw [List.find?_filter]
  by_cases hid : downloadId = downloadId'
  · rw [if_pos hid, List.find?_eq_none]
    intro row _ h
    obtain ⟨hne, heq⟩ := of_decide_eq_true h
    exact of_decide_eq_true hne ((of_decide_eq_true heq).trans hid.symm)
  · rw [if_neg hid]
    congr 1
    funext row
    by_cases hrow : row.downloadId = downloadId'
    · simp [hrow, Ne.symm hid]
    · simp [hrow]

@[simp] theorem Db.owner_deleteDownload (downloadId : Text) (rows : List DownloadRow) :
    (Db.getDownload downloadId (Db.deleteDownload downloadId rows)).bind
        DownloadRow.sourceId = none := by
  rw [Db.getDownload_deleteDownload, if_pos rfl]
  rfl

/-! ## What leaves the view alone -/

namespace Slot

variable (slot : Slot)

@[simp] theorem view_truncate (d : Disk) :
    slot.view (truncateTo slot.temp 0 d) = (slot.view d).cut := by
  rw [truncateTo_zero]
  simp only [view, PartialView.cut, Function.update_self]

@[simp] theorem view_recordResult (sourceId : Text) (success integrity : Bool) (now : ℕ)
    (d : Disk) : slot.view (recordResult sourceId success integrity now d) = slot.view d :=
  rfl

@[simp] theorem view_setDownloadState (state : Text) (d : Disk) :
    slot.view { d with
      downloads := Db.setDownloadState slot.downloadId state d.downloads } = slot.view d := by
  simp only [view, Db.owner_setDownloadState]

@[simp] theorem view_setTemp_none (d : Disk) :
    slot.view (d.setTemp slot.temp none) = (slot.view d).gone := by
  simp only [view, PartialView.gone, Disk.setTemp, Function.update_self]

end Slot

/-! ## The induction -/

/-- A property of the partial through all a download does to it: `turn s` holds
while it is the turn of source `s`, `between p` between two turns when the loop
takes `p` for the writer of the partial, and `rest` between calls and however
one ends. -/
structure PartialInvariant (D : Digests) (slot : Slot) where
  turn : Text → PartialView → Prop
  between : Option Text → PartialView → Prop
  rest : PartialView → Prop
  /-- An attempt keeps it the source's turn, and lets it be blamed for what it
  is blamed for. -/
  streamOnce : ∀ source attempt,
    Triple (fun d => turn source.sourceId (slot.view d))
      (streamOnce D (slot.target source) attempt)
      (fun r d => turn source.sourceId (slot.view d) ∧
        ∀ e, r = .err e → e.blames = true →
          turn source.sourceId ((slot.view d).blamed source.sourceId))
  streamSegmented : ∀ source connections run,
    Triple (fun d => turn source.sourceId (slot.view d))
      (streamSegmented D (slot.target source) connections run)
      (fun _ d => turn source.sourceId (slot.view d))
  cut : ∀ s v, turn s v → turn s v.cut
  /-- A source's turn comes: its own partial it may keep, and any with a chunk
  tree. -/
  enter : ∀ s p v, between p v →
    (slot.chunkTree.isSome ∨ ∀ o, p = some o → o = s) → turn s v
  enter_cut : ∀ s p v, between p v → turn s v.cut
  /-- A source's turn is over, and it wrote the partial if there is one. -/
  leave : ∀ s v, turn s v → between (if 0 < v.cells.length then some s else none) v
  done : ∀ s v, turn s v → rest v
  stop : ∀ p v, between p v → rest v
  discard : ∀ v, rest v → rest v.discarded
  /-- A call begins, without a chunk tree: the writer is whom the row names,
  and a partial of nobody is cut to nothing. -/
  start : ∀ v, rest v → slot.chunkTree = none → v.file.isSome →
    (∀ o, v.owner = some o → between (some o) v) ∧ between none v.cut
  /-- A call begins with a chunk tree, or without a partial. -/
  start_clean : ∀ v, rest v → slot.chunkTree.isSome ∨ v.file = none → between none v

namespace PartialInvariant

variable {D : Digests} {slot : Slot} (inv : PartialInvariant D slot)

/-- What a failure of a source records. -/
theorem recordFailure_triple (source : Source) (e : Error) (now : ℕ) :
    Triple (fun d => inv.turn source.sourceId (slot.view d) ∧
        (e.blames = true →
          inv.turn source.sourceId ((slot.view d).blamed source.sourceId)))
      (recordFailure (slot.target source) e now)
      (fun _ d => inv.turn source.sourceId (slot.view d)) := by
  intro d hd
  unfold recordFailure
  rw [bind_apply, modify_apply, andThen_ok]
  by_cases hblames : e.blames = true
  · rw [whenever_true hblames]
    have hview : slot.view
        (quarantineTemp (slot.target source) e (recordResult source.sourceId false true now d)).2 =
          (slot.view d).blamed source.sourceId := by
      unfold quarantineTemp Cas.quarantine
      simp only [bind_apply, modify_apply, get_apply, pure_apply, andThen_ok, Slot.view,
        PartialView.blamed, Disk.setTemp]
      rw [show (slot.target source).temp = slot.temp from rfl, Function.update_self]
      rfl
    rw [hblames]
    show inv.turn _ (slot.view (quarantineTemp (slot.target source) e
      (recordResult source.sourceId false true now d)).2)
    rw [hview]
    exact hd.2 hblames
  · rw [whenever_false hblames]
    exact hd.1

/-- **The attempts at one source.** -/
theorem attemptLoop_triple (source : Source) (run : SourceRun) (retries n : ℕ) :
    Triple (fun d => inv.turn source.sourceId (slot.view d))
      (attemptLoop D (slot.target source) run retries n)
      (fun _ d => inv.turn source.sourceId (slot.view d)) := by
  have hfailed : ∀ (e : Error) (now : ℕ) {x : Program Disk Error BlobMeta},
      Triple (fun d => inv.turn source.sourceId (slot.view d)) x
        (fun _ d => inv.turn source.sourceId (slot.view d)) →
      Triple (fun d => inv.turn source.sourceId (slot.view d) ∧
          (e.blames = true →
            inv.turn source.sourceId ((slot.view d).blamed source.sourceId)))
        (recordFailure (slot.target source) e now >>= fun _ => x)
        (fun _ d => inv.turn source.sourceId (slot.view d)) := fun e now x hx =>
    Triple.bind (inv.recordFailure_triple source e now) (fun _ => hx) (fun _ _ => id)
      fun _ => id
  have honce : ∀ attempt, Triple (fun d => inv.turn source.sourceId (slot.view d))
      (result (Atlas.streamOnce D (slot.target source) attempt))
      (fun r d => inv.turn source.sourceId (slot.view d) ∧
        ∀ e, r = .ok (.error e) → e.blames = true →
          inv.turn source.sourceId ((slot.view d).blamed source.sourceId)) := by
    intro attempt
    refine Triple.result ((inv.streamOnce source attempt).post fun r d h => ?_)
    cases r with
    | ok m => exact ⟨h.1, fun e he => nomatch he⟩
    | err e => exact ⟨h.1, fun e' he => by cases he; exact h.2 e rfl⟩
    | crash => exact ⟨h.1, fun e he => nomatch he⟩
  induction retries generalizing n with
  | zero =>
    unfold attemptLoop
    refine Triple.bind (honce _) (fun r => ?_) (fun _ _ h => h.1) (fun _ h => h.1)
    cases r with
    | ok m => exact Triple.pure fun _ h => h.1
    | error e =>
      refine Triple.ite (fun _ => Triple.throw fun _ h => h.1) fun _ => ?_
      exact (hfailed e _ (Triple.throw fun _ => id)).conseq
        (fun _ h => ⟨h.1, h.2 e rfl⟩) fun _ _ => id
  | succ retries ih =>
    unfold attemptLoop
    refine Triple.bind (honce _) (fun r => ?_) (fun _ _ h => h.1) (fun _ h => h.1)
    cases r with
    | ok m => exact Triple.pure fun _ h => h.1
    | error e =>
      refine Triple.ite (fun _ => Triple.throw fun _ h => h.1) fun _ => ?_
      refine (hfailed e _ (Triple.ite (fun _ => ih (n + 1)) fun _ =>
        Triple.throw fun _ => id)).conseq (fun _ h => ⟨h.1, h.2 e rfl⟩) fun _ _ => id

/-- **The turn of one source.** -/
theorem trySource_triple (maxAttempts : ℕ) (source : Source) (run : SourceRun) :
    Triple (fun d => inv.turn source.sourceId (slot.view d))
      (trySource D maxAttempts (slot.target source) run)
      (fun _ d => inv.turn source.sourceId (slot.view d)) := by
  unfold trySource
  cases run.preflight with
  | error e => exact Triple.throw fun _ => id
  | ok u =>
    refine Triple.bind (R := fun _ d => inv.turn source.sourceId (slot.view d))
      (Triple.get fun _ => id) (fun d => ?_) (fun _ _ => id) fun _ => id
    refine Triple.ite (fun _ => ?_) fun _ => inv.attemptLoop_triple source run _ 0
    refine Triple.bind (R := fun _ d => inv.turn source.sourceId (slot.view d))
      (Triple.result ((inv.streamSegmented source run.connections run.segmented).post
        fun r _ h => by cases r <;> exact h)) (fun r => ?_) (fun _ _ => id) fun _ => id
    cases r with
    | ok m => exact Triple.pure fun _ => id
    | error e =>
      refine Triple.ite (fun _ => Triple.throw fun _ => id) fun _ => ?_
      refine Triple.bind (R := fun _ d => inv.turn source.sourceId (slot.view d))
        (Triple.modify fun d hd => ?_) (fun _ => inv.attemptLoop_triple source run _ 0)
        (fun _ _ => id) fun _ => id
      show inv.turn _ (slot.view (truncateTo slot.temp 0 d))
      rw [slot.view_truncate]
      exact inv.cut _ _ hd

/-- The end of a call by the user. -/
theorem finishCancelled_triple (discard : Bool) :
    Triple (fun d => inv.rest (slot.view d))
      (finishCancelled discard slot.downloadId slot.temp)
      (fun _ d => inv.rest (slot.view d)) := by
  refine Triple.ite (fun _ => ?_) fun _ => ?_
  · refine Triple.bind (R := fun _ d => inv.rest (slot.view d)) (Triple.modify fun d hd => ?_)
      (fun _ => Triple.throw fun _ => id) (fun _ _ => id) fun _ => id
    have hview : slot.view { d.setTemp slot.temp none with
        downloads := Db.deleteDownload slot.downloadId d.downloads } =
          (slot.view d).discarded := by
      simp only [Slot.view, PartialView.discarded, Disk.setTemp, Function.update_self,
        Db.owner_deleteDownload]
    rw [hview]
    exact inv.discard _ hd
  · refine Triple.bind (R := fun _ d => inv.rest (slot.view d)) (Triple.modify fun d hd => ?_)
      (fun _ => Triple.throw fun _ => id) (fun _ _ => id) fun _ => id
    rw [slot.view_setDownloadState]
    exact hd

/-- **The loop over the sources.** -/
theorem sourceLoop_triple (ctx : LoopContext)
    (hctx : slot = ⟨ctx.artifact, ctx.temp, ctx.downloadId, ctx.chunkTree⟩)
    (plan : List PlannedSource) (partialOwner : Option Text) (lastErr : Option Error) :
    Triple (fun d => inv.between partialOwner (slot.view d))
      (sourceLoop D ctx plan partialOwner lastErr)
      (fun _ d => inv.rest (slot.view d)) := by
  subst hctx
  induction plan generalizing partialOwner lastErr with
  | nil =>
    refine Triple.bind (R := fun _ d => inv.rest (Slot.view _ d)) (Triple.modify fun d hd => ?_)
      (fun _ => Triple.throw fun _ => id) (fun _ _ => id) fun _ => id
    rw [Slot.view_setDownloadState]
    exact inv.stop _ _ hd
  | cons planned rest ih =>
    refine Triple.ite (fun _ => (inv.finishCancelled_triple ctx.discard).conseq
      (fun d => inv.stop _ _) fun _ _ => id) fun _ => ?_
    refine Triple.bind (R := fun _ d => inv.between partialOwner (Slot.view _ d))
      (Triple.get fun _ => id) (fun d => ?_) (fun _ _ => inv.stop _ _) fun _ => inv.stop _ _
    refine Triple.ite (fun _ => ih partialOwner lastErr) fun _ => ?_
    -- the partial of another source is cut to nothing before this one's turn
    refine Triple.bind (R := fun _ d => inv.turn planned.source.sourceId (Slot.view _ d))
      (Triple.ite (fun _ => Triple.modify fun d hd => ?_) fun hkeep => Triple.pure fun d hd => ?_)
      (fun _ => ?_) (fun _ _ => inv.done _ _) fun _ => inv.done _ _
    · rw [Slot.view_truncate ⟨ctx.artifact, ctx.temp, ctx.downloadId, ctx.chunkTree⟩]
      exact inv.enter_cut _ _ _ hd
    · refine inv.enter _ _ _ hd ?_
      cases htree : ctx.chunkTree with
      | some tree => exact Or.inl rfl
      | none =>
        refine Or.inr fun o ho => ?_
        by_contra hne
        exact hkeep ⟨by rw [htree]; rfl, by rw [ho]; exact decide_eq_true hne⟩
    · refine Triple.bind (R := fun _ d => inv.turn planned.source.sourceId (Slot.view _ d))
        (Triple.result ((inv.trySource_triple _ _ _).post fun r _ h => by cases r <;> exact h))
        (fun r => ?_) (fun _ _ => inv.done _ _) fun _ => inv.done _ _
      cases r with
      | ok m =>
        refine Triple.bind (R := fun _ d => inv.rest (Slot.view _ d))
          (Triple.modify fun d hd => ?_) (fun _ => Triple.pure fun _ => id) (fun _ _ => id)
          fun _ => id
        have hview := Slot.view_setDownloadState
          ⟨ctx.artifact, ctx.temp, ctx.downloadId, ctx.chunkTree⟩ "complete".toList d
        exact inv.done _ _ (hview ▸ hd)
      | error e =>
        refine Triple.ite (fun _ => (inv.finishCancelled_triple ctx.discard).conseq
          (fun d => inv.done _ _) fun _ _ => id) fun _ => ?_
        intro d hd
        have hlen : d.tempLen ctx.temp = (Slot.view ⟨ctx.artifact, ctx.temp, ctx.downloadId,
            ctx.chunkTree⟩ d).cells.length := by
          unfold Disk.tempLen PartialView.cells Slot.view
          cases d.temps ctx.temp <;> rfl
        rw [bind_apply, get_apply, andThen_ok, hlen]
        exact ih _ _ d (inv.leave _ _ hd)

/-- **A call begins** with whom the row names for the writer of the partial. -/
theorem adoptPartial_triple :
    Triple (fun d => inv.rest (slot.view d))
      (adoptPartial slot.chunkTree slot.temp slot.downloadId)
      (fun r d => match r with
        | .ok partialOwner => inv.between partialOwner (slot.view d)
        | _ => inv.rest (slot.view d)) := by
  intro d hd
  unfold adoptPartial
  simp only [bind_apply, get_apply, andThen_ok]
  -- with a leaf tree, or without a partial, nothing is cut; otherwise the row decides whether a
  -- partial has an owner
  by_cases hclean : slot.chunkTree.isSome ∨ d.temps slot.temp = none
  · have hguard : (slot.chunkTree.isNone && (d.temps slot.temp).isSome) = false := by
      cases htree : slot.chunkTree with
      | some tree => rfl
      | none =>
        have hnone := hclean.resolve_left (by rw [htree]; exact Bool.false_ne_true)
        rw [hnone]
        rfl
    have hguard' : ∀ p : Prop,
        ¬ (slot.chunkTree.isNone ∧ (d.temps slot.temp).isSome ∧ p) := by
      rintro p ⟨htree, hfile, -⟩
      rw [htree, hfile] at hguard
      cases hguard
    rw [hguard, whenever_false (hguard' _)]
    exact inv.start_clean _ hd hclean
  · have htree : slot.chunkTree = none := by
      cases htree : slot.chunkTree with
      | some tree => exact absurd (Or.inl (by rw [htree]; rfl)) hclean
      | none => rfl
    have hfile : (d.temps slot.temp).isSome := by
      rw [Option.isSome_iff_ne_none]
      exact fun hnone => hclean (Or.inr hnone)
    obtain ⟨howned, hnobody⟩ := inv.start _ hd htree hfile
    rw [htree, hfile]
    simp only [Option.isNone_none, Bool.and_self, if_true, true_and]
    cases howner : (Db.getDownload slot.downloadId d.downloads).bind DownloadRow.sourceId with
    | none =>
      show inv.between none (slot.view (truncateTo slot.temp 0 d))
      rw [slot.view_truncate]
      exact hnobody
    | some o =>
      exact howned o howner

/-- **A call that transfers.** -/
theorem transferArtifact_triple {manifestId : Text} {artifact : Artifact}
    {chunkTree : Option ChunkTree} (hslot : slot = slotOf D manifestId artifact chunkTree)
    (maxAttempts : ℕ) (run : DownloadRun) :
    Triple (fun d => cachedChunkTree D d.cache artifact = chunkTree ∧
        inv.rest (slot.view d))
      (transferArtifact D maxAttempts manifestId artifact run)
      (fun _ d => inv.rest (slot.view d)) := by
  subst hslot
  rintro d ⟨htree, hrest⟩
  unfold transferArtifact
  simp only [bind_apply, modify_apply, get_apply, andThen_ok, htree]
  rw [← bind_apply]
  refine Triple.bind inv.adoptPartial_triple (fun owner => inv.sourceLoop_triple
    ⟨manifestId, artifact, (slotOf D manifestId artifact chunkTree).downloadId,
      (slotOf D manifestId artifact chunkTree).temp, chunkTree, maxAttempts, run.discard,
      run.buildsTree⟩ rfl run.plan owner none) (fun _ _ => id) (fun _ => id) _ ?_
  have hview : (slotOf D manifestId artifact chunkTree).view { d with
      downloads := Db.upsertDownload (artifactDownloadId D manifestId artifact.path)
        manifestId artifact.path "running".toList artifact.sizeBytes d.downloads } =
      (slotOf D manifestId artifact chunkTree).view d := by
    simp only [Slot.view, slotOf, Db.owner_upsertDownload]
  show inv.rest (Slot.view _ _)
  rw [hview]
  exact hrest

/-- **A call of `download_artifact`** keeps what holds between calls, if it
finds the chunk tree, or finds that there is none. -/
theorem downloadArtifact {manifestId : Text} {artifact : Artifact}
    {chunkTree : Option ChunkTree} (hslot : slot = slotOf D manifestId artifact chunkTree)
    (maxAttempts : ℕ) (run : DownloadRun) {d : Disk}
    (htree : cachedBlake3 d.cache artifact = none →
      cachedChunkTree D d.cache artifact = chunkTree)
    (hd : inv.rest (slot.view d)) :
    inv.rest (slot.view (downloadArtifact D maxAttempts manifestId artifact run d).2) := by
  unfold Atlas.downloadArtifact
  rw [bind_apply, get_apply, andThen_ok]
  cases hcached : cachedBlake3 d.cache artifact with
  | some blake3 => exact hd
  | none =>
    dsimp only
    split
    · exact hd
    · split
      · exact hd
      · exact inv.transferArtifact_triple hslot maxAttempts run d ⟨htree hcached, hd⟩

end PartialInvariant

end Atlas
