import Atlas.Partials
import Atlas.Transfer

/-!
# Discarding a transfer

A transfer that was removed by the user leaves nothing behind: the partials and rows of
its artifacts go, and so do the scratch file and the stripe journal of a peer fetch.
They are found by name. A row is named by a digest of the manifest id and the path, a
partial by that name with something after it, and a scratch file by the first characters
of the hash of the blob, whoever fetches it.

`discardTransfer_keeps_iff` says when another transfer keeps all of its own. The names
of the first two kinds tell most transfers apart; those of the last do not tell apart
two manifests that share a blob.
-/

namespace Atlas

open Text

/-! ## Names -/

/-- Scratch file a fetch writes a blob into before the engine verifies it. -/
def scratchPath (blobHash : Text) : Text :=
  "iroh-".toList ++ blobHash.take 16 ++ ".tmp".toList

/-- Sidecar journal recording a striped fetch's completed pieces, kept beside its
destination. -/
def stripeJournalPath (dest : Text) : Text := dest ++ ".stripes".toList

/-- Two blobs have one scratch file if their hashes begin alike. -/
theorem scratchPath_eq_iff {hash hash' : Text} :
    scratchPath hash = scratchPath hash' ↔ hash.take 16 = hash'.take 16 := by
  unfold scratchPath
  rw [List.append_left_inj, List.append_right_inj]

theorem stripeJournalPath_eq_iff {dest dest' : Text} :
    stripeJournalPath dest = stripeJournalPath dest' ↔ dest = dest' :=
  List.append_left_inj _

/-- A journal is no scratch file. -/
theorem scratchPath_ne_stripeJournalPath (hash dest : Text) :
    scratchPath hash ≠ stripeJournalPath dest := by
  intro h
  have hlast := congrArg List.getLast? h
  unfold scratchPath stripeJournalPath at hlast
  simp only [List.getLast?_append] at hlast
  exact absurd (show some 'p' = some 's' from hlast) (by decide)

/-- What comes before the first dot of a partial's name is the download it belongs to. -/
theorem takeWhile_of_isTempOf {downloadId temp : Text} (hdot : '.' ∉ downloadId)
    (h : isTempOf downloadId temp = true) :
    temp.takeWhile (fun c => c ≠ '.') = downloadId := by
  unfold isTempOf at h
  rw [Bool.and_eq_true, List.isPrefixOf_iff_prefix] at h
  obtain ⟨⟨rest, rfl⟩, -⟩ := h
  rw [List.append_assoc, List.takeWhile_append_of_pos]
  · show downloadId ++ [] = downloadId
    rw [List.append_nil]
  · intro c hc
    exact decide_eq_true fun hc' => hdot (hc' ▸ hc)

variable (D : Digests)

theorem dot_notMem_artifactDownloadId (manifestId path : Text) :
    '.' ∉ artifactDownloadId D manifestId path := by
  intro h
  have hhex := List.all_eq_true.mp (all_isAsciiHexdigit_hexEncode _) '.' h
  exact absurd hhex (by decide)

/-! ## Peers -/

/-- Providers for a content hash, as the tracker has them: a BLAKE3 and the tickets of those
that have it. -/
structure ProviderSet where
  /-- The resolved BLAKE3. -/
  blake3 : Text
  /-- The provider node tickets. -/
  nodes : List Text

/-- The tracker is untrusted: a real BLAKE3 is required of it, in hexadecimal and of full
length. -/
def ProviderSet.usable (set : ProviderSet) : Bool :=
  !set.nodes.isEmpty && set.blake3.utf8Len = 64 && set.blake3.all isAsciiHexdigit

/-- The Iroh source has the tracker's current view, or is added. -/
def refreshIroh (set : ProviderSet) : List Source → List Source
  | [] => [.iroh set.blake3 set.nodes .none]
  | .iroh _ _ auth :: rest => .iroh set.blake3 set.nodes auth :: rest
  | source :: rest => source :: refreshIroh set rest

/-- The sources an artifact is planned with, after the tracker was asked. -/
def plannedSources (artifact : Artifact) : Option ProviderSet → List Source
  | none => artifact.sources
  | some set => if set.usable then refreshIroh set artifact.sources else artifact.sources

/-- The blob that a source fetches from peers, which is what its scratch file is named after. -/
def Source.peerBlob : Source → Option Text
  | .iroh blobHash _ _ => some blobHash
  | _ => none

/-! ## What transfers have on disk -/

/-- The store, the scratch directory, and the transfers that are running or paused over them. -/
structure Workspace where
  disk : Disk
  /-- The files of the scratch directory, by name. -/
  scratch : Text → Option Bytes
  /-- The registry, by manifest id. -/
  transfers : Text → Option TransferControl
  /-- What the tracker answered about an artifact, by manifest id and path. -/
  found : Text → Text → Option ProviderSet

namespace TransferControl

/-- Ask a transfer to stop, and to discard its partial, with the state the user is shown. -/
def requestStop (c : TransferControl) : TransferControl :=
  ((c.setDiscard true).setCancel true).setState .stopped

end TransferControl

namespace Workspace

/-- Whether a transfer of the manifest has its body running now, as a control in the
registry says. -/
def isExecuting (manifestId : Text) (w : Workspace) : Bool :=
  (w.transfers manifestId).any TransferControl.executing

/-- Ask the transfer of a manifest, if there is one, to stop and to leave nothing behind. -/
def requestStop (manifestId : Text) (w : Workspace) : Workspace :=
  { w with
    transfers := Function.update w.transfers manifestId
      ((w.transfers manifestId).map TransferControl.requestStop) }

/-- Take the transfer of a manifest off the screen; its disk state is discarded separately. -/
def removeTransfer (manifestId : Text) (w : Workspace) : Workspace :=
  { w with transfers := Function.update w.transfers manifestId none }

/-- Every partial of a download goes, under whatever suffix the store named it. -/
def removeDownloadTemps (downloadId : Text) (w : Workspace) : Workspace :=
  { w with disk := { w.disk with
      temps := fun temp => if isTempOf downloadId temp then none else w.disk.temps temp } }

/-- Delete a row of the downloads table, and with it what is known of the download's state. -/
def deleteDownload (downloadId : Text) (w : Workspace) : Workspace :=
  { w with disk := { w.disk with
      downloads := Db.deleteDownload downloadId w.disk.downloads } }

/-- Delete the scratch of a peer-to-peer transfer, or one of the sidecars beside it. -/
def removeScratch (name : Text) (w : Workspace) : Workspace :=
  { w with scratch := Function.update w.scratch name none }

/-- What a transfer left of one artifact goes: its partials, its row, and the scratch of the
blobs it was fetched as. -/
def discardArtifact (manifestId : Text) (w : Workspace) (artifact : Artifact) :
    Workspace :=
  let downloadId := artifactDownloadId D manifestId artifact.path
  let w := (w.removeDownloadTemps downloadId).deleteDownload downloadId
  if artifact.hashes.hasBlake3 then
    let tmp := scratchPath artifact.hashes.blake3
    (w.removeScratch (stripeJournalPath tmp)).removeScratch tmp
  else w

/-- Fully discard a paused or waiting transfer. One that is being driven is asked to
stop instead. -/
def discardTransfer (manifestId : Text) (w : Workspace) : Workspace :=
  if w.isExecuting manifestId then w.requestStop manifestId
  else
    match requireManifest manifestId w.disk with
    | .ok m =>
      (m.artifacts.foldl (discardArtifact D m.manifestId) w).removeTransfer manifestId
    | .error _ => w.removeTransfer manifestId

/-- The blobs that a transfer fetches from peers for an artifact, those of its own sources
and of the tracker's answer. -/
def peerBlobs (m : Manifest) (artifact : Artifact) (w : Workspace) : List Text :=
  (plannedSources artifact (w.found m.manifestId artifact.path)).filterMap Source.peerBlob

/-- A manifest has a transfer, in progress or to be resumed. -/
structure Transferring (m : Manifest) (w : Workspace) : Prop where
  stored : requireManifest m.manifestId w.disk = .ok m
  begun : (w.transfers m.manifestId).isSome ∨
    ∃ row ∈ w.disk.downloads, row.manifestId = m.manifestId

/-- All that a transfer uses, or will resume from, is as it was. -/
structure Keeps (m : Manifest) (w w' : Workspace) : Prop where
  row : ∀ artifact ∈ m.artifacts,
    Db.getDownload (artifactDownloadId D m.manifestId artifact.path) w'.disk.downloads =
      Db.getDownload (artifactDownloadId D m.manifestId artifact.path) w.disk.downloads
  temp : ∀ artifact ∈ m.artifacts, ∀ temp,
    isTempOf (artifactDownloadId D m.manifestId artifact.path) temp →
      w'.disk.temps temp = w.disk.temps temp
  scratch : ∀ artifact ∈ m.artifacts, ∀ hash ∈ w.peerBlobs m artifact,
    w'.scratch (scratchPath hash) = w.scratch (scratchPath hash)
  journal : ∀ artifact ∈ m.artifacts, ∀ hash ∈ w.peerBlobs m artifact,
    w'.scratch (stripeJournalPath (scratchPath hash)) =
      w.scratch (stripeJournalPath (scratchPath hash))

/-- A manifest has nothing on disk under a name that is also another's. -/
structure Apart (m other : Manifest) (w : Workspace) : Prop where
  /-- An artifact of each with one download id has no row and no partial. -/
  download : ∀ a ∈ m.artifacts, ∀ b ∈ other.artifacts,
    artifactDownloadId D m.manifestId a.path = artifactDownloadId D other.manifestId b.path →
      Db.getDownload (artifactDownloadId D other.manifestId b.path) w.disk.downloads = none ∧
      ∀ temp, isTempOf (artifactDownloadId D other.manifestId b.path) temp →
        w.disk.temps temp = none
  /-- A blob of the one whose hash begins as that of one the other fetches from peers
  has no scratch file and no journal. -/
  blob : ∀ a ∈ m.artifacts, a.hashes.hasBlake3 → ∀ b ∈ other.artifacts,
    ∀ hash ∈ w.peerBlobs other b, a.hashes.blake3.take 16 = hash.take 16 →
      w.scratch (scratchPath hash) = none ∧
      w.scratch (stripeJournalPath (scratchPath hash)) = none

/-! ## What one artifact takes away -/

variable {D}

/-- What an artifact takes away it leaves empty. -/
theorem discardArtifact_temps (manifestId : Text) (w : Workspace) (artifact : Artifact)
    (temp : Text) :
    (w.discardArtifact D manifestId artifact).disk.temps temp =
      if isTempOf (artifactDownloadId D manifestId artifact.path) temp then none
      else w.disk.temps temp := by
  unfold discardArtifact
  cases artifact.hashes.hasBlake3 <;> rfl

theorem discardArtifact_getDownload (manifestId : Text) (w : Workspace)
    (artifact : Artifact) (downloadId : Text) :
    Db.getDownload downloadId (w.discardArtifact D manifestId artifact).disk.downloads =
      if artifactDownloadId D manifestId artifact.path = downloadId then none
      else Db.getDownload downloadId w.disk.downloads := by
  have hrows : (w.discardArtifact D manifestId artifact).disk.downloads =
      Db.deleteDownload (artifactDownloadId D manifestId artifact.path) w.disk.downloads := by
    unfold discardArtifact
    cases artifact.hashes.hasBlake3 <;> rfl
  rw [hrows, Db.getDownload_deleteDownload]

theorem discardArtifact_scratch (manifestId : Text) (w : Workspace) (artifact : Artifact)
    (name : Text) :
    (w.discardArtifact D manifestId artifact).scratch name =
      if artifact.hashes.hasBlake3 ∧ (name = scratchPath artifact.hashes.blake3 ∨
          name = stripeJournalPath (scratchPath artifact.hashes.blake3)) then none
      else w.scratch name := by
  unfold discardArtifact
  cases hb : artifact.hashes.hasBlake3 with
  | false =>
    rw [if_neg (by simp)]
    rfl
  | true =>
    simp only [if_true, true_and]
    show Function.update (Function.update w.scratch _ none) _ none name = _
    by_cases hscratch : name = scratchPath artifact.hashes.blake3
    · rw [hscratch, Function.update_self, if_pos (Or.inl rfl)]
    · rw [Function.update_of_ne hscratch]
      by_cases hjournal : name = stripeJournalPath (scratchPath artifact.hashes.blake3)
      · rw [hjournal, Function.update_self, if_pos (Or.inr rfl)]
      · rw [Function.update_of_ne hjournal, if_neg (not_or.mpr ⟨hscratch, hjournal⟩)]

/-! ## What all of them take away -/

/-- What each step of a loop empties or leaves, the loop leaves if and only if no step
empties it, or it was empty before. -/
theorem foldl_kept_iff {σ ι β : Type} {step : σ → ι → σ} {f : σ → Option β}
    {P : ι → Prop} [DecidablePred P]
    (h : ∀ s a, f (step s a) = if P a then none else f s) (l : List ι) (s : σ) :
    f (l.foldl step s) = f s ↔ ∀ a ∈ l, P a → f s = none := by
  have hloop : f (l.foldl step s) = if ∃ a ∈ l, P a then none else f s := by
    induction l generalizing s with
    | nil => rw [List.foldl_nil, if_neg (by simp)]
    | cons a l ih =>
      rw [List.foldl_cons, ih, h]
      by_cases ha : P a
      · rw [if_pos ha, ite_self, if_pos ⟨a, List.mem_cons_self, ha⟩]
      · rw [if_neg ha]
        simp only [List.exists_mem_cons_iff, ha, false_or]
  rw [hloop]
  by_cases hl : ∃ a ∈ l, P a
  · rw [if_pos hl]
    obtain ⟨a, ha, hP⟩ := hl
    exact ⟨fun hnone _ _ _ => hnone.symm, fun hnone => (hnone a ha hP).symm⟩
  · rw [if_neg hl]
    exact ⟨fun _ a ha hP => absurd ⟨a, ha, hP⟩ hl, fun _ => rfl⟩

/-- The transfer keeps its own exactly if the artifacts that are discarded have nothing
under its names. -/
theorem keeps_foldl_iff (m other : Manifest) (w : Workspace) :
    Keeps D other w (m.artifacts.foldl (discardArtifact D m.manifestId) w) ↔
      Apart D m other w := by
  have hrow (downloadId : Text) := foldl_kept_iff
    (f := fun w => Db.getDownload downloadId (disk w).downloads)
    (fun w a => discardArtifact_getDownload (D := D) m.manifestId w a downloadId) m.artifacts w
  have htemp (temp : Text) := foldl_kept_iff (f := fun w => (disk w).temps temp)
    (fun w a => discardArtifact_temps (D := D) m.manifestId w a temp) m.artifacts w
  have hscratch (name : Text) := foldl_kept_iff (f := fun w => scratch w name)
    (fun w a => discardArtifact_scratch (D := D) m.manifestId w a name) m.artifacts w
  constructor
  · intro h
    refine ⟨fun a ha b hb hid => ⟨?_, fun temp htempOf => ?_⟩,
      fun a ha hblake3 b hb hash hhash hbegin => ⟨?_, ?_⟩⟩
    · exact (hrow _).mp (h.row b hb) a ha hid
    · exact (htemp temp).mp (h.temp b hb temp htempOf) a ha (hid ▸ htempOf)
    · exact (hscratch _).mp (h.scratch b hb hash hhash) a ha
        ⟨hblake3, Or.inl (scratchPath_eq_iff.mpr hbegin.symm)⟩
    · exact (hscratch _).mp (h.journal b hb hash hhash) a ha
        ⟨hblake3, Or.inr (congrArg stripeJournalPath (scratchPath_eq_iff.mpr hbegin.symm))⟩
  · intro h
    refine ⟨fun b hb => (hrow _).mpr fun a ha hid => (h.download a ha b hb hid).1,
      fun b hb temp htempOf => (htemp temp).mpr fun a ha htempOf' => ?_,
      fun b hb hash hhash => (hscratch _).mpr fun a ha hname => ?_,
      fun b hb hash hhash => (hscratch _).mpr fun a ha hname => ?_⟩
    · -- a partial belongs to one download id
      have hid := (takeWhile_of_isTempOf (dot_notMem_artifactDownloadId D _ _) htempOf').symm.trans
        (takeWhile_of_isTempOf (dot_notMem_artifactDownloadId D _ _) htempOf)
      exact (h.download a ha b hb hid).2 temp htempOf
    · obtain ⟨hblake3, hname | hname⟩ := hname
      · exact (h.blob a ha hblake3 b hb hash hhash (scratchPath_eq_iff.mp hname).symm).1
      · exact absurd hname (scratchPath_ne_stripeJournalPath _ _)
    · obtain ⟨hblake3, hname | hname⟩ := hname
      · exact absurd hname.symm (scratchPath_ne_stripeJournalPath _ _)
      · exact (h.blob a ha hblake3 b hb hash hhash
          (scratchPath_eq_iff.mp (stripeJournalPath_eq_iff.mp hname)).symm).2

/-- Whatever it does on disk, the other transfers are as they were in the registry. -/
theorem discardTransfer_transfers_of_ne {manifestId other : Text} (hne : other ≠ manifestId)
    (w : Workspace) : (w.discardTransfer D manifestId).transfers other = w.transfers other := by
  have hloop (m : Manifest) :
      (m.artifacts.foldl (discardArtifact D m.manifestId) w).transfers = w.transfers := by
    generalize m.artifacts = artifacts
    induction artifacts generalizing w with
    | nil => rfl
    | cons a artifacts ih =>
      rw [List.foldl_cons, ih]
      unfold discardArtifact
      cases a.hashes.hasBlake3 <;> rfl
  unfold discardTransfer
  by_cases hexec : w.isExecuting manifestId = true
  · rw [if_pos hexec]
    exact Function.update_of_ne hne _ _
  · rw [if_neg hexec]
    cases requireManifest manifestId w.disk with
    | error e => exact Function.update_of_ne hne _ _
    | ok m =>
      show Function.update (m.artifacts.foldl (discardArtifact D m.manifestId) w).transfers manifestId none other = _
      rw [hloop, Function.update_of_ne hne]

/-- **A discard leaves every other transfer its own if and only if it removes nothing, or
what it removes has no name in common with theirs.** The manifest may be driven, when it
is only asked to stop, or not be there; else no artifact of it may have a download id
under which another transfer has a row or a partial, nor a BLAKE3 that begins as that of
a blob another transfer has fetched some of from its peers. -/
theorem discardTransfer_keeps_iff (D : Digests) (manifestId : Text) (w : Workspace) :
    (∀ other : Manifest, other.manifestId ≠ manifestId → w.Transferring other →
        w.Keeps D other (w.discardTransfer D manifestId)) ↔
      (w.isExecuting manifestId ∨
        ∀ m, requireManifest manifestId w.disk = .ok m →
          ∀ other : Manifest, other.manifestId ≠ manifestId → w.Transferring other →
            w.Apart D m other) := by
  unfold discardTransfer
  by_cases hexec : w.isExecuting manifestId = true
  · rw [if_pos hexec]
    exact iff_of_true (fun other _ _ => ⟨fun _ _ => rfl, fun _ _ _ _ => rfl,
      fun _ _ _ _ => rfl, fun _ _ _ _ => rfl⟩) (Or.inl hexec)
  · rw [if_neg hexec, or_iff_right hexec]
    cases hm : requireManifest manifestId w.disk with
    | error e =>
      exact iff_of_true (fun other _ _ => ⟨fun _ _ => rfl, fun _ _ _ _ => rfl,
        fun _ _ _ _ => rfl, fun _ _ _ _ => rfl⟩) (fun m hm' => by cases hm')
    | ok m =>
      have hiff (other : Manifest) := keeps_foldl_iff (D := D) m other w
      constructor
      · rintro h m' hm' other hne hother
        cases hm'
        have hkeep := h other hne hother
        exact (hiff other).mp ⟨hkeep.row, hkeep.temp, hkeep.scratch, hkeep.journal⟩
      · intro h other hne hother
        have hkeep := (hiff other).mpr (h m rfl other hne hother)
        exact ⟨hkeep.row, hkeep.temp, hkeep.scratch, hkeep.journal⟩

end Workspace

/-! ## Two models with a file in common -/

/-- A file that two manifests list, small and fetched from peers. -/
def tokenizerArtifact : Artifact where
  path := "tokenizer.json".toList
  sizeBytes := 4096
  hashes := ⟨List.replicate 64 'a', [], []⟩
  chunking := none
  sources := [.iroh (List.replicate 64 'a') ["ticket".toList] .none]

/-- A manifest that lists it, under an id of its own, so that two of them share one blob. -/
def tokenizerManifest (manifestId : Text) : Manifest where
  schemaVersion := SCHEMA_VERSION
  manifestId := manifestId
  publisherId := "local".toList
  access := ⟨false, false, []⟩
  artifacts := [tokenizerArtifact]

/-- Both are paused, and the file was fetched in part, under the one scratch name that they
share. -/
def pausedWorkspace : Workspace where
  disk := { Disk.empty with
    manifests := [tokenizerManifest "base".toList, tokenizerManifest "tuned".toList] }
  scratch := fun name =>
    if name = scratchPath (List.replicate 64 'a') ∨
        name = stripeJournalPath (scratchPath (List.replicate 64 'a'))
    then some [] else none
  transfers := fun manifestId =>
    if manifestId = "base".toList ∨ manifestId = "tuned".toList
    then some ⟨true, false, .paused, false⟩ else none
  found := fun _ _ => none

/-- Discarding the one transfer removes what the other was going to resume from. -/
theorem shared_partial_discarded :
    ¬ ∀ (D : Digests) (manifestId : Text) (w : Workspace) (other : Manifest),
      other.manifestId ≠ manifestId → w.Transferring other →
        w.Keeps D other (w.discardTransfer D manifestId) := by
  intro h
  have hkeep := h ⟨id, id, id⟩ "base".toList pausedWorkspace
    (tokenizerManifest "tuned".toList) (by decide) ⟨rfl, Or.inl rfl⟩
  have hscratch := hkeep.scratch tokenizerArtifact List.mem_cons_self
    (List.replicate 64 'a') List.mem_cons_self
  exact absurd hscratch (by decide +kernel)

end Atlas
