import Atlas.CacheIndex
import Atlas.MirrorSegments

/-!
# Downloads from servers that have the file

The plan of a download names several sources, and the partial that one leaves may be resumed by
the next. Where all of them are servers that have the file, the partial is a beginning of the
file at every turn, so that no server is blamed for what another delivered, and the download
succeeds with the first that delivers (`downloadArtifact_mirrors`).
-/

namespace Atlas

open Text Program

variable {D : Digests} {b : Bytes} {d : Disk}

/-- A source of a plan that has the file, what trying it meets, and the clock of its ban check. -/
structure MirrorSource (b : Bytes) where
  source : Source
  transfer : MirrorTransfer b
  now : ℕ

namespace MirrorSource

variable (D : Digests) (ctx : LoopContext) (s : MirrorSource b)

/-- What an attempt at the mirror is about, as the loop passes it on. -/
def target : Target := ctx.target s.source

/-- Whether the source is skipped, because its row holds a ban that is still active. -/
def skipped (d : Disk) : Bool :=
  banActive s.now (Db.getSourceHealth s.source.sourceId d.sourceHealth)

/-- The store a turn begins with: a partial of another source is emptied if nothing could tell
whose bytes are wrong. -/
def turnStore (partialOwner : Option Text) (d : Disk) : Disk :=
  if ctx.chunkTree.isNone ∧ partialOwner.any (· ≠ s.source.sourceId) then
    truncateTo ctx.temp 0 d
  else d

/-- What the turn meets: the source, the time, and the run that the mirror's answers make of it. -/
def planned (partialOwner : Option Text) (d : Disk) : PlannedSource :=
  ⟨s.source, false, s.now, s.transfer.run D (s.target ctx) (s.turnStore ctx partialOwner d)⟩

/-- The store a failed turn leaves, on which the next source is tried. -/
def turnEnd (partialOwner : Option Text) (d : Disk) : Disk :=
  (trySource D ctx.maxAttempts (s.target ctx) (s.planned D ctx partialOwner d).run
    (s.turnStore ctx partialOwner d)).2

/-- Who wrote the partial a failed turn leaves, or nobody where it left no bytes. -/
def ownerAfter (d : Disk) : Option Text :=
  if 0 < d.tempLen ctx.temp then some s.source.sourceId else none

/-- The turn delivers the file, in one of the attempts it is allowed. -/
def Supplies (partialOwner : Option Text) (d : Disk) : Prop :=
  s.transfer.Delivered D (s.target ctx) ctx.maxAttempts (s.turnStore ctx partialOwner d)

variable {s}

/-- The plan, turn by turn, each computed on the store that the turns before it leave. -/
def plan : List (MirrorSource b) → Option Text → Disk → List PlannedSource
  | [], _, _ => []
  | s :: rest, partialOwner, d =>
    s.planned D ctx partialOwner d ::
      if s.skipped d then plan rest partialOwner d
      else
        let d' := s.turnEnd D ctx partialOwner d
        plan rest (s.ownerAfter ctx d') d'

/-- Some turn delivers the file, where a turn that fails hands the next one the store it left. -/
def Supplied : List (MirrorSource b) → Option Text → Disk → Prop
  | [], _, _ => False
  | s :: rest, partialOwner, d =>
    if s.skipped d then Supplied rest partialOwner d
    else
      s.Supplies D ctx partialOwner d ∨
        let d' := s.turnEnd D ctx partialOwner d
        Supplied rest (s.ownerAfter ctx d') d'

end MirrorSource

/-- What a download from mirrors comes to: an outcome that names the file exactly if `P`, and a
failure that leaves a beginning of it otherwise. Nothing is put on record against anybody. -/
inductive MirrorsSpec (b : Bytes) (names : List Text) (d : Disk) (P : Prop) :
    Exit Error ArtifactOutcome × Disk → Prop
  | supplied {o : ArtifactOutcome} {d' : Disk} (delivered : P)
    (blob : d'.cache.blobs o.blake3 = some b) (source : ∃ name ∈ names, o.sourceId = some name)
    (unharmed : NobodyHarmed d d') : MirrorsSpec b names d P (.ok o, d')
  | failed {e : Error} {d' : Disk} (undelivered : ¬ P) (cache : d'.cache = d.cache)
    (unharmed : NobodyHarmed d d') : MirrorsSpec b names d P (.err e, d')

theorem MirrorsSpec.congr {names : List Text} {P Q : Prop} {out : Exit Error ArtifactOutcome × Disk}
    (h : MirrorsSpec b names d P out) (hPQ : P ↔ Q) : MirrorsSpec b names d Q out := by
  rwa [propext hPQ] at h

/-- Another name does not matter. -/
theorem MirrorsSpec.cons {names : List Text} {P : Prop} {out : Exit Error ArtifactOutcome × Disk}
    (h : MirrorsSpec b names d P out) (name : Text) : MirrorsSpec b (name :: names) d P out := by
  cases h with
  | supplied hP hblob hsource hharm =>
    obtain ⟨name', hmem, heq⟩ := hsource
    exact .supplied hP hblob ⟨name', List.mem_cons_of_mem _ hmem, heq⟩ hharm
  | failed hP hcache hharm => exact .failed hP hcache hharm

variable {ctx : LoopContext} {d₀ : Disk}

/-- Emptying the temp spoils nothing. -/
theorem Unspoilt.truncateTo {t : Target} (h : Unspoilt t b d₀ d) :
    Unspoilt t b d₀ (truncateTo t.temp 0 d) := by
  refine ⟨beginning_truncateTo t b d, ?_, fun s => ?_⟩
  · rw [truncateTo_zero]
    exact h.cache
  · rw [truncateTo_zero]
    exact ⟨(h.unharmed s).failures, (h.unharmed s).banned, (h.unharmed s).quarantine⟩

theorem MirrorSource.unspoilt_turnStore {s : MirrorSource b}
    (h : Unspoilt (s.target ctx) b d₀ d) (partialOwner : Option Text) :
    Unspoilt (s.target ctx) b d₀ (s.turnStore ctx partialOwner d) := by
  unfold MirrorSource.turnStore
  split
  · exact h.truncateTo
  · exact h

/-- **The sources of a plan, turn by turn**: the download succeeds exactly if some turn
delivers the file. -/
theorem sourceLoop_mirrors (hinj : Function.Injective D.blake3) (hsound : CasSound D d₀.cache)
    (h : ∀ source, Suits D (ctx.target source) b) (mirrors : List (MirrorSource b))
    (hturns : ∀ s ∈ mirrors, ∀ d, s.transfer.inSegments D (s.target ctx) d = true →
      s.transfer.mirror.Interleaves s.source.sourceId s.transfer.firstConnection
        (segments (s.target ctx) s.transfer.connections) s.transfer.turns)
    (partialOwner : Option Text) (lastErr : Option Error)
    (hd : ∀ source, Unspoilt (ctx.target source) b d₀ d) :
    MirrorsSpec b (mirrors.map fun s => s.source.sourceId) d₀
      (MirrorSource.Supplied D ctx mirrors partialOwner d)
      (sourceLoop D ctx (MirrorSource.plan D ctx mirrors partialOwner d) partialOwner lastErr
        d) := by
  -- on the plan, one source a turn; the store the next turn begins with is either untouched (a
  -- banned source is skipped) or unspoilt (an interrupted one)
  induction mirrors generalizing partialOwner lastErr d with
  | nil =>
    have hfirst := hd (.localFile [])
    refine .failed id hfirst.cache fun s => ?_
    exact ⟨(hfirst.unharmed s).failures, (hfirst.unharmed s).banned,
      (hfirst.unharmed s).quarantine⟩
  | cons s rest ih =>
    have hrest : ∀ s' ∈ rest, ∀ d, s'.transfer.inSegments D (s'.target ctx) d = true →
        s'.transfer.mirror.Interleaves s'.source.sourceId s'.transfer.firstConnection
          (segments (s'.target ctx) s'.transfer.connections) s'.transfer.turns :=
      fun s' hs' => hturns s' (List.mem_cons_of_mem _ hs')
    have hturn := MirrorSource.unspoilt_turnStore (hd s.source) partialOwner
    rw [List.map_cons]
    unfold MirrorSource.plan MirrorSource.Supplied sourceLoop
    rw [show (s.planned D ctx partialOwner d).cancelled = false from rfl,
      if_neg Bool.false_ne_true, bind_apply, get_apply, andThen_ok]
    rw [show banActive (s.planned D ctx partialOwner d).now (Db.getSourceHealth
      (s.planned D ctx partialOwner d).source.sourceId d.sourceHealth) = s.skipped d from rfl]
    cases hskipped : s.skipped d with
    | true =>
      rw [if_pos rfl, if_pos rfl, if_pos rfl]
      exact (ih hrest partialOwner lastErr hd).cons _
    | false =>
      rw [if_neg Bool.false_ne_true, if_neg Bool.false_ne_true, if_neg Bool.false_ne_true,
        bind_apply]
      -- a partial that another source left is cut to nothing before this one is tried
      have hemptied : (whenever (ctx.chunkTree.isNone = true ∧
          partialOwner.any (fun name => decide (name ≠ s.source.sourceId)) = true)
          (modify (truncateTo ctx.temp 0)) : Program Disk Error Unit) d =
          (.ok (), s.turnStore ctx partialOwner d) := by
        unfold MirrorSource.turnStore whenever
        split <;> rfl
      have hspec : MirrorSpec D (s.target ctx) b d₀ (s.Supplies D ctx partialOwner d)
          (trySource D ctx.maxAttempts (s.target ctx) (s.planned D ctx partialOwner d).run
            (s.turnStore ctx partialOwner d)) :=
        (trySource_mirror hinj (hturn.cache ▸ hsound) (h s.source) hturn.beginning s.transfer
          (hturns s List.mem_cons_self _) ctx.maxAttempts).of_later hturn.cache hturn.unharmed
      rw [show (s.planned D ctx partialOwner d).source.sourceId = s.source.sourceId from rfl,
        hemptied, andThen_ok, bind_apply]
      unfold result
      have hend : s.turnEnd D ctx partialOwner d = (trySource D ctx.maxAttempts (s.target ctx)
        (s.planned D ctx partialOwner d).run (s.turnStore ctx partialOwner d)).2 := rfl
      rw [show ctx.target (s.planned D ctx partialOwner d).source = s.target ctx from rfl]
      rcases hrun : trySource D ctx.maxAttempts (s.target ctx)
        (s.planned D ctx partialOwner d).run (s.turnStore ctx partialOwner d) with
        ⟨blob | e | _, d'⟩
      · rw [hrun] at hspec
        cases hspec with
        | committed hdelivered hcommitted hharm =>
          obtain ⟨_, hblob, -, rfl⟩ := hcommitted.blob
          refine .supplied (Or.inl hdelivered) ?_ ⟨_, List.mem_cons_self, rfl⟩ fun name => ?_
          · show (finalizeBlob D ctx.artifact blob ctx.buildsTree d'.cache).blobs _ = _
            rw [finalizeBlob_blobs]
            exact hblob
          · exact ⟨(hharm name).failures, (hharm name).banned, (hharm name).quarantine⟩
      · rw [hrun] at hspec hend
        cases hspec with
        | interrupted hundelivered hinterrupted hharm =>
          rw [andThen_ok]
          dsimp only
          rw [if_neg hinterrupted.uncancelled, bind_apply, get_apply, andThen_ok, hend]
          have hnext : ∀ source, Unspoilt (ctx.target source) b d₀ d' := fun source =>
            ⟨hinterrupted.beginning, hinterrupted.cache, hharm⟩
          refine ((ih hrest (s.ownerAfter ctx d') (some e) hnext).cons _).congr ⟨Or.inr, ?_⟩
          rintro (hdelivered | hlater)
          · exact absurd hdelivered hundelivered
          · exact hlater
      · rw [hrun] at hspec
        cases hspec

/-! ## The download -/

/-- A partial is kept as it is, or emptied. -/
theorem adoptPartial_cases (chunkTree : Option ChunkTree) (temp downloadId : Text) (d : Disk) :
    ∃ partialOwner, adoptPartial chunkTree temp downloadId d = (.ok partialOwner, d) ∨
      adoptPartial chunkTree temp downloadId d = (.ok partialOwner, truncateTo temp 0 d) := by
  unfold adoptPartial
  rw [bind_apply, get_apply, andThen_ok]
  generalize (if (chunkTree.isNone && (d.temps temp).isSome) = true then
    (Db.getDownload downloadId d.downloads).bind DownloadRow.sourceId else none) = partialOwner
  refine ⟨partialOwner, ?_⟩
  by_cases hc : chunkTree.isNone = true ∧ (d.temps temp).isSome = true ∧
    partialOwner.isNone = true
  · rw [whenever_true hc]
    exact Or.inr rfl
  · rw [whenever_false hc]
    exact Or.inl rfl

/-- A download whose plan names mirrors only, during which nobody interrupts; the settings
of the engine and what the discovery excludes are part of it. -/
structure MirrorsDownload (b : Bytes) where
  maxAttempts : ℕ
  manifestId : Text
  artifact : Artifact
  mirrors : List (MirrorSource b)
  discard : Bool
  excluded : Text
  buildsTree : Bool

namespace MirrorsDownload

variable (p : MirrorsDownload b) (D : Digests)

/-- What the sources work with: the artifact, its download's id, its partial and what the
user asked for. -/
def context (d : Disk) : LoopContext where
  manifestId := p.manifestId
  artifact := p.artifact
  downloadId := artifactDownloadId D p.manifestId p.artifact.path
  temp := Cas.newTempPath (artifactDownloadId D p.manifestId p.artifact.path)
    (short (if p.artifact.hashes.hasBlake3 then p.artifact.hashes.blake3
      else p.artifact.hashes.sha256))
  chunkTree := cachedChunkTree D d.cache p.artifact
  maxAttempts := p.maxAttempts
  discard := p.discard
  buildsTree := p.buildsTree

/-- The store once the row is written and the partial adopted, or emptied. -/
def adopted (d : Disk) : Exit Error (Option Text) × Disk :=
  adoptPartial (p.context D d).chunkTree (p.context D d).temp (p.context D d).downloadId
    { d with
      downloads := Db.upsertDownload (p.context D d).downloadId p.manifestId p.artifact.path
        "running".toList p.artifact.sizeBytes d.downloads }

/-- Who wrote the partial the sources begin with, as adopting it found out. -/
def firstOwner (d : Disk) : Option Text :=
  match (p.adopted D d).1 with
  | .ok partialOwner => partialOwner
  | _ => none

/-- What the download meets: a plan of mirrors, and a user who does not stop it. -/
def run (d : Disk) : DownloadRun where
  cancelled := false
  discard := p.discard
  plan := MirrorSource.plan D (p.context D d) p.mirrors (p.firstOwner D d) (p.adopted D d).2
  excluded := p.excluded
  buildsTree := p.buildsTree

/-- Some turn delivers the file, from the store that adopting the partial left. -/
def Supplied (d : Disk) : Prop :=
  MirrorSource.Supplied D (p.context D d) p.mirrors (p.firstOwner D d) (p.adopted D d).2

variable {p D}

/-- Adopting the partial spoils nothing. -/
theorem adopted_eq {source : Source}
    (hd : Unspoilt ((p.context D d).target source) b d d) :
    p.adopted D d = (.ok (p.firstOwner D d), (p.adopted D d).2) ∧
      Unspoilt ((p.context D d).target source) b d (p.adopted D d).2 := by
  have hrow : Unspoilt ((p.context D d).target source) b d { d with
      downloads := Db.upsertDownload (p.context D d).downloadId p.manifestId p.artifact.path
        "running".toList p.artifact.sizeBytes d.downloads } := by
    refine ⟨hd.beginning, rfl, fun s => ?_⟩
    exact ⟨(hd.unharmed s).failures, (hd.unharmed s).banned, (hd.unharmed s).quarantine⟩
  unfold firstOwner adopted
  obtain ⟨partialOwner, heq | heq⟩ := adoptPartial_cases (p.context D d).chunkTree
    (p.context D d).temp (p.context D d).downloadId { d with
      downloads := Db.upsertDownload (p.context D d).downloadId p.manifestId p.artifact.path
        "running".toList p.artifact.sizeBytes d.downloads }
  · rw [heq]
    exact ⟨rfl, hrow⟩
  · rw [heq]
    exact ⟨rfl, hrow.truncateTo⟩

end MirrorsDownload

/-- The first answer breaks off after a byte; later ones deliver what is asked for. -/
def flakyAnswer (request : ℕ) (range : Option ByteRange) : Except SendError HttpResponse :=
  match request, range with
  | 0, none => .ok ⟨200, some "OK".toList, [.ok [0x61], .error "connection reset".toList]⟩
  | 0, some _ => .error .timeout
  | _, none => .ok ⟨200, some "OK".toList, [.ok abc]⟩
  | _, some ⟨start, none⟩ =>
    if 0 < start ∧ start < abc.length then
      .ok ⟨206, some "Partial Content".toList, [.ok (abc.drop start)]⟩
    else .ok ⟨416, some "Range Not Satisfiable".toList, []⟩
  | _, some ⟨_, some _⟩ => .error .timeout

theorem flakyAnswer_honest (request : ℕ) (range : Option ByteRange) (resp : HttpResponse)
    (h : flakyAnswer request range = .ok resp) :
    MirrorAnswer abc (ByteRange.header range) resp := by
  unfold flakyAnswer at h
  split at h
  · cases h
    exact .whole rfl (by decide)
  · cases h
  · cases h
    exact .whole rfl (by decide)
  · rename_i start hrequest
    split at h
    · rename_i hstart
      cases h
      refine .part (ByteRange.header_onward hstart.1) (.onward start) hstart.2 rfl ?_
      show abc.drop start ++ [] <+: abc.drop start
      rw [List.append_nil]
    · cases h
      exact .refused rfl
  · cases h

/-- A mirror that breaks off and does not answer every request, but sends nothing wrong. -/
def flakyMirror : Mirror abc := ⟨flakyAnswer, flakyAnswer_honest⟩

/-- That mirror as a source of the plan, with a clock that stands still. -/
def flakySource : MirrorSource abc where
  source := .httpsMirror "https://mirror.example/weights.bin".toList .none
  transfer := {
    mirror := flakyMirror
    earlier := 0
    availableSpace := fun _ => none
    clock := fun _ => 0
    connections := 1
    rateLimited := false
    firstConnection := 0
    turns := []
    segmentedClock := 0 }
  now := 0

/-- A download of `abc` from it, of two attempts, where the mirror breaks the first of them off. -/
def abcDownload : MirrorsDownload abc where
  maxAttempts := 2
  manifestId := "org/model".toList
  artifact := {
    path := "weights.bin".toList
    sizeBytes := 3
    hashes := ⟨hexEncode (sampleDigests.blake3 abc), [], []⟩
    chunking := none
    sources := [] }
  mirrors := [flakySource]
  discard := false
  excluded := []
  buildsTree := false

/-- From the second request on, whatever is missing arrives. -/
theorem flakyMirror_delivers (sourceId : Text) {start : ℕ} (h : start < 3) :
    flakyMirror.Delivers sourceId 1 start := by
  unfold Mirror.Delivers Mirror.opens resumeRange
  by_cases hpos : 0 < start
  · rw [if_pos hpos]
    have hanswer : flakyMirror.answer 1 (some ⟨start, none⟩) =
        .ok ⟨206, some "Partial Content".toList, [.ok (abc.drop start)]⟩ := if_pos ⟨hpos, h⟩
    rw [hanswer]
    refine ⟨⟨start, [.ok (abc.drop start)]⟩, ?_, ?_, List.append_nil _⟩
    · unfold HttpClient.openUrl
      dsimp only
      rw [if_neg (by decide), if_neg (by decide), if_neg (show ¬ (!HttpResponse.isSuccess
        ⟨206, some "Partial Content".toList, [.ok (abc.drop start)]⟩) = true from
          (Bool.false_ne_true : ¬ false = true)),
        if_pos ⟨show 0 < ByteRange.requestedStart (some ⟨start, none⟩) from hpos, rfl⟩]
      rfl
    · intro item hitem
      cases List.mem_singleton.mp hitem
      rfl
  · rw [if_neg hpos]
    refine ⟨⟨0, [.ok abc]⟩, rfl, ?_, List.append_nil _⟩
    intro item hitem
    cases List.mem_singleton.mp hitem
    rfl

/-- The first request is not refused for good. -/
theorem flakyMirror_recoverable (sourceId : Text) (start : ℕ) (e : AdapterError)
    (h : flakyMirror.opens sourceId 0 start = .error e) : e.error.isRetriable = true := by
  unfold Mirror.opens resumeRange at h
  by_cases hpos : 0 < start
  · rw [if_pos hpos] at h
    cases h
    rfl
  · rw [if_neg hpos] at h
    cases h

end Atlas
