import Atlas.Attribution
import Atlas.Discarding
import Atlas.NewBlame
import Atlas.Planner
import Atlas.StoredTrees
import Atlas.WrongLeaf

/-!
# Discovering peers

Before an artifact is planned the tracker is asked who has it. What it answers takes the place
of the artifact's Iroh source, or is added as one, and is fetched, verified and scored as any
other source. The tracker is not trusted for the address: it has to look like a BLAKE3, and
that is all; what is fetched from there is compared with what the artifact declares, and a
difference is put on record against the address.

`discovery_cannot_poison_iff` says when an Iroh source can come to harm in this way. An Iroh
fetch yields the bytes of the address it is given, so it is the tracker's BLAKE3 alone that
decides: it has to be the artifact's own.
-/

namespace Atlas

open Text Program

variable {D : Digests}

/-! ## The merge -/

/-- An artifact as it is planned and fetched, once the tracker has answered. -/
def discovered (artifact : Artifact) (answer : Option ProviderSet) : Artifact :=
  { artifact with sources := plannedSources artifact answer }

/-- The live provider count, which feeds the scoring bonus, as the tracker's answer has it
if it can be used at all. -/
def knownPeers (answer : Option ProviderSet) : Option ℕ :=
  (answer.filter ProviderSet.usable).map fun set => set.nodes.length

/-- When a source's turn comes: whether the user has stopped by then, the time, and what
trying it meets. -/
structure SourceTurn where
  /-- Whether Pause or Stop was pressed by then. -/
  cancelled : Bool
  /-- The clock of the ban check, in seconds. -/
  now : ℕ
  run : SourceRun

/-- What a download that asks the tracker meets: its settings, the planner's clock, and each
source's turn. -/
structure DiscoveryRun where
  maxAttempts : ℕ
  profile : PlatformProfile
  preference : DownloadPreference
  /-- The BitTorrent adapter was built in. -/
  bittorrent : Bool
  /-- The clock of the planner, in seconds. -/
  planned : ℕ
  /-- Whether Pause or Stop was pressed during the discovery. -/
  cancelled : Bool
  discard : Bool
  buildsTree : Bool
  /-- What the sources of the plan meet, in its order. -/
  turns : ℕ → SourceTurn

section Planning

/-! What a score is, how a source is scored and which of two scores comes first are
parameters, as they are for the planner. -/

variable {σ : Type} (zero : σ)
  (scoreSource : SourceClass → SourceHealth → PlatformProfile → DownloadPreference →
    Option ℕ → σ)
  (before : σ → σ → Bool)

namespace DiscoveryRun

variable (run : DiscoveryRun) (manifest : Manifest) (artifact : Artifact)
  (answer : Option ProviderSet)

/-- The plan is made from the merged sources and the records of the day. -/
def plan (d : Disk) : Plan σ :=
  planArtifactWith zero scoreSource before run.bittorrent manifest (discovered artifact answer)
    run.profile run.preference (knownPeers answer)
    (fun sourceId => Db.getSourceHealth sourceId d.sourceHealth) run.planned

/-- Why the plan is empty, if it is: the first reason that is not blank. -/
def excludedReason (plan : Plan σ) : Text :=
  ((plan.excluded.map ScoredSource.reason).find? fun reason => !reason.trim.isEmpty).getD
    "no source is currently eligible".toList

/-- What `downloadArtifact` meets: the plan's eligible sources in order, each with its turn. -/
def downloadRun (d : Disk) : DownloadRun where
  cancelled := run.cancelled
  discard := run.discard
  plan := (run.plan zero scoreSource before manifest artifact answer d).eligible.zipIdx.map
    fun (scored, i) =>
      ⟨scored.source, (run.turns i).cancelled, (run.turns i).now, (run.turns i).run⟩
  excluded := excludedReason (run.plan zero scoreSource before manifest artifact answer d)
  buildsTree := run.buildsTree

end DiscoveryRun

/-- The store after an artifact was downloaded from what the tracker and the manifest name. -/
def downloadDiscovered (D : Digests) (manifest : Manifest) (artifact : Artifact)
    (answer : Option ProviderSet) (run : DiscoveryRun) (d : Disk) : Disk :=
  (downloadArtifact D run.maxAttempts manifest.manifestId (discovered artifact answer)
    (run.downloadRun zero scoreSource before manifest artifact answer d) d).2

end Planning

/-! ## Iroh -/

/-- The address of an Iroh source is the BLAKE3 of some bytes, in any letter case. -/
def Addresses (D : Digests) (address : Text) (b : Bytes) : Prop :=
  eqIgnoreAsciiCase address (hexEncode (D.blake3 b)) = true

/-- All that a stream yields, whether or not it is kept. -/
def fetched (events : List StreamEvent) : Bytes :=
  events.flatMap fun ev => ev.item.toOption.getD []

/-- **What Iroh verifies**: a fetch starts over, and what it yields is the content of its
address, up to where an error breaks it off. -/
structure Serves (D : Digests) (address : Text) (o : Opening) : Prop where
  restarts : o.honoursRange = false
  content : ∃ b, Addresses D address b ∧ fetched o.events <+: b ∧
    (o.ending = .endOfStream → (∀ ev ∈ o.events, ev.item.toBool = true) → fetched o.events = b)

/-- Every Iroh fetch of a plan is verified, so that only the content of its address is ever
yielded. -/
def VerifiedFetches (D : Digests) (plan : List PlannedSource) : Prop :=
  ∀ p ∈ plan, ∀ address tickets auth, p.source = .iroh address tickets auth →
    ∀ n o, (p.run.attempts n).opened = .ok o → Serves D address o

/-- The identifier that the health of an Iroh source goes by, so that a ban of one address
does not touch the others. -/
def irohId (address : Text) : Text := "iroh:".toList ++ address

/-- Only Iroh sources have such identifiers. -/
theorem eq_iroh_of_sourceId {source : Source} {address : Text}
    (h : source.sourceId = irohId address) :
    ∃ tickets auth, source = .iroh address tickets auth := by
  have hhead : ∀ {c : Char} {rest : Text}, source.sourceId = c :: rest → c = 'i' := by
    intro c rest hc
    rw [h] at hc
    exact (List.cons.inj hc).1.symm
  cases source with
  | iroh blobHash tickets auth =>
    obtain rfl : blobHash = address := List.append_cancel_left h
    exact ⟨tickets, auth, rfl⟩
  | huggingface repoId revision path auth => exact absurd (hhead rfl) (by decide)
  | httpsMirror url auth => exact absurd (hhead rfl) (by decide)
  | bittorrentV2 magnetUri root auth => exact absurd (hhead rfl) (by decide)
  | lanPeer url auth => exact absurd (hhead rfl) (by decide)
  | localFile path => exact absurd (hhead rfl) (by decide)

/-! ## An attempt that cannot go wrong -/

section Attempt

variable {t : Target}

/-- Bytes that an attempt accepts as the whole of an artifact. -/
structure Accepted (D : Digests) (artifact : Artifact) (b : Bytes) : Prop where
  digests : artifact.hashes.Match D b
  size : b.length = artifact.sizeBytes
  /-- An empty file cannot be told by its git OID. -/
  git : artifact.sizeBytes = 0 → artifact.hashes.hasGitBlobSha1 = false

/-- A stream that ignores the range starts with nothing. -/
theorem openStream_restarts {attempt : Attempt} {d d' : Disk} {opening : Opening}
    {st : StreamState} (h : openStream D t attempt d = (.ok (opening, st), d'))
    (hrestarts : opening.honoursRange = false) : st.bytesDone = 0 := by
  unfold openStream at h
  obtain ⟨want, d₁, -, h⟩ := bind_eq_ok h
  obtain ⟨⟨v, resumeFrom⟩, d₂, -, h⟩ := bind_eq_ok h
  cases hopened : attempt.opened with
  | error e =>
    rw [hopened] at h
    cases h
  | ok o =>
    rw [hopened] at h
    obtain ⟨v', d₃, -, h⟩ := bind_eq_ok h
    obtain ⟨-, d₄, -, h⟩ := bind_eq_ok h
    obtain ⟨-, d₅, -, h⟩ := bind_eq_ok h
    cases h
    show min (opening.effectiveStart resumeFrom) t.total = 0
    unfold Opening.effectiveStart
    rw [hrestarts]
    exact Nat.zero_min _

/-- A finished verifier that refuses what it consumed says so of the bytes. -/
theorem finishDigests_blames {v : StreamingVerifier} {e : Error}
    (h : v.finishDigests D = .error e) : e.blames = true := by
  unfold StreamingVerifier.finishDigests at h
  dsimp only at h
  split at h
  · cases h
    rfl
  · split at h
    · cases h
      rfl
    · cases h

theorem fetched_cons (ev : StreamEvent) (events : List StreamEvent) :
    fetched (ev :: events) = ev.item.toOption.getD [] ++ fetched events :=
  rfl

/-- Without a chunk tree no leaf is checked. -/
theorem leafCheck_eq_none (htree : t.chunkTree = none) {file : List Cell} {st : StreamState}
    {d : Disk} (hin : InStep D t file st d) : st.verifier.leafCheck = none := by
  refine hin.fed.leafCheck_none ?_
  show t.chunkTree.map LeafCheck.new = none
  rw [htree]
  rfl

/-- One turn of a verified fetch: the temp and what is still to come stay a beginning of the
content of the address, and nobody is blamed. -/
theorem streamStep_serves {b : Bytes} (htree : t.chunkTree = none) (htotal : b.length ≤ t.total)
    {ceiling : Option ℕ} (hceiling : ceiling.isSome → t.total = 0) {ev : StreamEvent}
    {evs : List StreamEvent} {st : StreamState} {file : List Cell} {d d' : Disk}
    {r : Exit Error StreamState} (hfetched : bytesOf file ++ fetched (ev :: evs) <+: b)
    (hin : InStep D t file st d) (hspec : StepSpec D t ceiling st ev file d (r, d')) :
    match r with
    | .ok _ => ∀ file', d'.temps t.temp = some file' → bytesOf file' ++ fetched evs <+: b
    | r => ∀ e, r = .err e → e.blames = false := by
  have hlen : ∀ {chunk : Bytes}, ev.item = .ok chunk →
      st.bytesDone + chunk.length ≤ b.length := by
    intro chunk hitem
    have hle := hfetched.length_le
    rw [fetched_cons, hitem, ← List.append_assoc, List.length_append, List.length_append,
      bytesOf, List.length_map, hin.length] at hle
    exact Nat.le_trans (Nat.le_add_right _ _) hle
  have hnext : ∀ {chunk : Bytes} {file' : List Cell}, ev.item = .ok chunk →
      (received t st file chunk chunk d).temps t.temp = some file' →
      bytesOf file' ++ fetched evs <+: b := by
    intro chunk file' hitem hfile'
    rw [received_temp] at hfile'
    cases hfile'
    rw [fetched_cons, hitem, ← List.append_assoc] at hfetched
    rw [bytesOf_append]
    exact hfetched
  cases hspec with
  | cancelled => exact fun e he => by cases he; rfl
  | @interrupted e _ _ => exact fun e' he => by cases he; exact e.blameless
  | @refused chunk e _ hitem he =>
    have hfits := hlen hitem
    cases he with
    | overlong hover => exact absurd hover.2 (by omega)
    | @noSpace c hceil hc =>
      have hzero : t.total = 0 := hceiling (by rw [hceil]; rfl)
      omega
    | leaf hfeed =>
      rw [StreamingVerifier.feed_of_leafCheck_none (leafCheck_eq_none htree hin)] at hfeed
      cases hfeed
  | failed => exact fun e he => by cases he; rfl
  | died => exact fun e he => by cases he
  | written _ hitem => exact fun file' => hnext hitem
  | refreshed _ hitem => exact fun file' => hnext hitem

/-- The end of a verified fetch: too few bytes came, or they are what the artifact accepts. -/
theorem verifyStream_serves {b : Bytes} (htree : t.chunkTree = none)
    (hgood : b.length < t.total ∨ Accepted D t.artifact b) {file : List Cell} {st : StreamState}
    {d d' : Disk} (hfile : bytesOf file <+: b) (hin : InStep D t file st d) {e : Error}
    (h : verifyStream D t st d = (.err e, d')) : e.blames = false := by
  unfold verifyStream at h
  by_cases hshort : st.bytesDone < t.total
  · rw [if_pos hshort] at h
    cases h
    rfl
  · rw [if_neg hshort] at h
    have hlen : (bytesOf file).length = st.bytesDone := by
      rw [bytesOf, List.length_map, hin.length]
    have htotal : b.length ≤ t.total := hgood.elim Nat.le_of_lt fun haccepted => haccepted.size.le
    have hwhole : bytesOf file = b := hfile.eq_of_length_le (by omega)
    have haccepted : Accepted D t.artifact b := by
      refine hgood.resolve_left ?_
      rw [← hwhole, hlen]
      exact hshort
    obtain ⟨got, hgot⟩ := StreamingVerifier.finishDigests_content
      (hwhole ▸ hin.consumed) haccepted.digests (fun _ => haccepted.size) haccepted.git
    have hfinish : st.verifier.finish D = .ok got := by
      unfold StreamingVerifier.finish
      rw [leafCheck_eq_none htree hin]
      exact hgot
    rw [hfinish] at h
    cases h

/-- Up to the commit a verified fetch blames nobody, if the bytes of its address are too few
to be the artifact, or are what it accepts. -/
theorem streamToCommit_serves {address : Text} (htree : t.chunkTree = none) {attempt : Attempt}
    (hserves : ∀ o, attempt.opened = .ok o → Serves D address o)
    (hgood : ∀ b, Addresses D address b → b.length < t.total ∨ Accepted D t.artifact b)
    {d d' : Disk} {e : Error} (h : streamToCommit D t attempt d = (.err e, d')) :
    e.blames = false := by
  unfold streamToCommit at h
  rw [bind_apply] at h
  have hspec := openStream_spec D t attempt d
  rcases hopen : openStream D t attempt d with ⟨⟨opening, st₀⟩ | e₀ | _, d₁⟩
  · rw [hopen] at hspec h
    rw [andThen_ok] at h
    cases hspec with
    | @opened _ kept v hopening _ hfed =>
      obtain ⟨hrestarts, b, haddress, hfetched, -⟩ := hserves opening hopening
      have hnil : kept = [] := List.length_eq_zero_iff.mp (openStream_restarts hopen hrestarts)
      subst hnil
      have htotal : b.length ≤ t.total :=
        (hgood b haddress).elim Nat.le_of_lt fun haccepted => haccepted.size.le
      have hin : InStep D t [] ⟨v, 0, 0⟩ { d with
          temps := Function.update d.temps t.temp (some [])
          trace := d.trace ++ resumedNote t d ++
            [.opened t.sourceId (rowOwner t d) [] t.total opening] } :=
        ⟨Function.update_self .., rfl, hfed⟩
      have hceiling : (unknownSizeCeiling t opening 0).isSome → t.total = 0 :=
        total_eq_zero_of_ceiling
      -- along the loop, what is in the file and what is still to come are together a prefix of the
      -- content addressed
      have hloop := foldlM_streamStep_rule
        (H := fun events _ file _ => bytesOf file ++ fetched events <+: b)
        (E := fun r _ => ∀ e, r = .err e → e.blames = false)
        (fun ev evs st file d r d' hH hin hs => by
          have hstep := streamStep_serves htree htotal hceiling hH hin hs
          cases r <;> exact hstep) opening.events hin hfetched
      dsimp only [List.length_nil] at h
      rw [bind_apply] at h
      generalize opening.events.foldlM (streamStep D t (unknownSizeCeiling t opening 0))
        ⟨v, 0, 0⟩ _ = out at hloop h
      rcases out with ⟨st' | e₁ | _, d₂⟩
      · obtain ⟨file, hin', hfile⟩ := hloop
        rw [andThen_ok] at h
        cases hending : opening.ending with
        | died =>
          rw [hending] at h
          cases h
        | endOfStream =>
          rw [hending] at h
          rw [show fetched [] = [] from rfl, List.append_nil] at hfile
          exact verifyStream_serves htree (hgood b haddress) hfile hin' h
      · cases h
        exact hloop _ rfl
      · cases h
  · rw [hopen] at hspec h
    cases h
    cases hspec with
    | failed hnone _ => exact hnone
  · rw [hopen] at h
    cases h

/-- **A verified fetch blames nobody**, if the bytes of its address are too few to be the
artifact, or are what it accepts. -/
theorem not_blames_of_serves {address : Text} {run : SourceRun} (htree : t.chunkTree = none)
    (hserves : ∀ n o, (run.attempts n).opened = .ok o → Serves D address o)
    (hgood : ∀ b, Addresses D address b → b.length < t.total ∨ Accepted D t.artifact b) :
    ¬ Blames D t run := by
  rintro ⟨n, d, e, hrun, hblames⟩
  have hblameless : e.blames = false := by
    unfold streamOnce at hrun
    rw [bind_apply] at hrun
    rcases hcommit : streamToCommit D t (run.attempts n) d with ⟨⟨hashes, size⟩ | e₀ | _, d₁⟩
    · rw [hcommit, andThen_ok] at hrun
      dsimp only at hrun
      rw [bind_apply] at hrun
      have hover := commitBlob_handedOver t hashes size d₁
      rcases hdone : Cas.commitBlob t.temp hashes size d₁ with ⟨m | e₁ | _, d₂⟩
      · rw [hdone] at hrun
        cases hrun
      · rw [hdone] at hrun hover
        cases hrun
        exact hover.blameless _ rfl
      · rw [hdone] at hrun
        cases hrun
    · rw [hcommit] at hrun
      cases hrun
      exact streamToCommit_serves htree (hserves n) hgood hcommit
    · rw [hcommit] at hrun
      cases hrun
  rw [hblameless] at hblames
  cases hblames

/-! ## An attempt that goes wrong -/

/-- A source that cannot be tried, since no adapter for it was built in. -/
def refuses : SourceTurn where
  cancelled := false
  now := 0
  run := {
    preflight := .error ⟨.other "no adapter".toList, rfl⟩
    connections := 1
    rateLimited := false
    cancelled := false
    segmented := ⟨[], false, fun _ => false, 0⟩
    attempts := fun _ => ⟨fun _ => false, .error ⟨.other "no adapter".toList, rfl⟩, 0⟩ }

/-- A source that delivers some bytes in one piece, onto a disk that is all but full. -/
def delivers (b : Bytes) : SourceTurn where
  cancelled := false
  now := 0
  run := {
    preflight := .ok ()
    connections := 1
    rateLimited := false
    cancelled := false
    segmented := ⟨[], false, fun _ => false, 0⟩
    attempts := fun _ =>
      ⟨fun _ => false, .ok ⟨false, some 0, [⟨false, .ok b, .written⟩], .endOfStream⟩, 0⟩ }

theorem serves_delivers {address : Text} {b : Bytes} (h : Addresses D address b) (n : ℕ)
    (o : Opening) (ho : ((delivers b).run.attempts n).opened = .ok o) : Serves D address o := by
  cases ho
  have hall : fetched [⟨false, .ok b, .written⟩] = b := List.append_nil b
  refine ⟨rfl, b, h, ?_, fun _ _ => hall⟩
  show fetched [⟨false, .ok b, .written⟩] <+: b
  rw [hall]

/-- Without a partial and a chunk tree, the stream is opened on an empty temp. -/
theorem openStream_fresh {attempt : Attempt} {opening : Opening} {d : Disk}
    (htemp : d.temps t.temp = none) (hopened : attempt.opened = .ok opening)
    (hrestarts : opening.honoursRange = false) :
    ∃ d', openStream D t attempt d = (.ok (opening, ⟨t.fresh, 0, 0⟩), d') := by
  have hnone : (resumable t d).length = 0 := by
    unfold resumable
    rw [htemp]
    rfl
  have hstart : min (opening.effectiveStart 0) t.total = 0 := by
    unfold Opening.effectiveStart
    rw [hrestarts]
    exact Nat.zero_min _
  unfold openStream
  rw [bind_apply, claimPartial_eq, hnone, andThen_ok, bind_apply,
    show prepareResume D t attempt.cancelPolls 0 = pure (t.fresh, 0) from if_pos rfl]
  dsimp only [pure_apply, andThen_ok]
  rw [hopened]
  dsimp only
  rw [hstart, bind_apply,
    show realign D t attempt.cancelPolls 0 0 t.fresh = pure t.fresh from if_neg fun h => h rfl]
  exact ⟨_, rfl⟩

/-- **Bytes that an artifact does not accept** are held against who delivers them, unless
they are too few. -/
theorem streamOnce_delivers {b : Bytes} (htree : t.chunkTree = none)
    (hlen : t.total ≤ b.length) (hnot : ¬ Accepted D t.artifact b) {d : Disk}
    (htemp : d.temps t.temp = none) (n : ℕ) :
    ∃ e d', streamOnce D t ((delivers b).run.attempts n) d = (.err e, d') ∧ e.blames = true := by
  have hopened : ((delivers b).run.attempts n).opened =
      .ok ⟨false, some 0, [⟨false, .ok b, .written⟩], .endOfStream⟩ := rfl
  obtain ⟨d₁, hopen⟩ := openStream_fresh (D := D) (t := t) htemp hopened rfl
  obtain ⟨kept, hin⟩ := openStream_inStep hopen
  have hnil : kept = [] := List.length_eq_zero_iff.mp hin.length
  subst hnil
  have hspec := streamStep_spec D t (unknownSizeCeiling t
    ⟨false, some 0, [⟨false, .ok b, .written⟩], .endOfStream⟩ 0) ⟨false, .ok b, .written⟩
    hin.temp hin.length
  unfold streamOnce streamToCommit
  rw [bind_apply, bind_apply, hopen, andThen_ok]
  dsimp only
  rw [bind_apply]
  rw [List.foldlM_cons, bind_apply]
  rcases hrun : streamStep D t (unknownSizeCeiling t
    ⟨false, some 0, [⟨false, .ok b, .written⟩], .endOfStream⟩ 0) ⟨t.fresh, 0, 0⟩
    ⟨false, .ok b, .written⟩ d₁ with ⟨st | e | _, d₂⟩
  · rw [hrun] at hspec
    -- everything was written, so that it is as long as the artifact
    have hall : st.bytesDone = b.length ∧ st.verifier.Consumed t.artifact.hashes
        t.artifact.sizeBytes b ∧ st.verifier.leafCheck = none ∧ b.length = t.total := by
      obtain ⟨chunk, hin'⟩ := streamStep_inStep hin hrun
      have hleaf := leafCheck_eq_none htree hin'
      have hsize : ∀ {chunk : Bytes}, (Except.ok b : Except AdapterError Bytes) = .ok chunk →
          ¬ (0 < t.total ∧ t.total < 0 + chunk.length) →
          (∀ c, unknownSizeCeiling t
            ⟨false, some 0, [⟨false, .ok b, .written⟩], .endOfStream⟩ 0 = some c →
              0 + chunk.length ≤ c) → b.length = t.total := by
        intro chunk hitem hfit hspace
        cases hitem
        by_cases hzero : t.total = 0
        · have hceil := hspace 0 (by
            unfold unknownSizeCeiling
            rw [if_pos hzero]
            rfl)
          omega
        · omega
      cases hspec with
      | @written chunk v _ hitem _ hfit hspace hfeed =>
        have hlast := hsize hitem hfit hspace
        cases hitem
        exact ⟨Nat.zero_add _, (hin.fed.feed hfeed).consumed, hleaf, hlast⟩
      | @refreshed chunk v _ hitem _ hfit hspace hfeed =>
        have hlast := hsize hitem hfit hspace
        cases hitem
        exact ⟨Nat.zero_add _, (hin.fed.feed hfeed).consumed, hleaf, hlast⟩
    obtain ⟨hdone, hconsumed, hleaf, hlast⟩ := hall
    rw [andThen_ok, List.foldlM_nil]
    show ∃ e d', andThen _ (verifyStream D t st d₂) = _ ∧ _
    unfold verifyStream
    rw [if_neg (by omega)]
    have hfinish : st.verifier.finish D = st.verifier.finishDigests D := by
      unfold StreamingVerifier.finish
      rw [hleaf]
    rw [hfinish]
    cases hgot : st.verifier.finishDigests D with
    | error e => exact ⟨e, d₂, rfl, finishDigests_blames hgot⟩
    | ok got =>
      obtain ⟨hmatch, -, -, -, hgit⟩ := StreamingVerifier.finishDigests_match hconsumed hgot
      refine absurd ⟨hmatch, hlast, fun hzero => ?_⟩ hnot
      by_contra hhas
      exact hgit (by simpa using hhas) hzero
  · rw [hrun] at hspec
    refine ⟨e, d₂, rfl, ?_⟩
    cases hspec with
    | refused _ _ he =>
      cases he with
      | overlong => rfl
      | noSpace => rfl
      | leaf hfeed =>
        rw [StreamingVerifier.feed_of_leafCheck_none (leafCheck_eq_none htree hin)] at hfeed
        cases hfeed
    | cancelled h => cases h
    | interrupted _ h => cases h
    | failed _ _ hw => cases hw
  · rw [hrun] at hspec
    cases hspec with
    | died _ _ hw => cases hw

/-- An integrity failure stays on record. -/
theorem failed_undisturbed (sourceId : Text) : Undisturbed (fun d =>
    0 < (Db.getSourceHealth sourceId d.sourceHealth).integrityFailures) := by
  have hrecord : ∀ (other : Text) (success integrity : Bool) (now : ℕ) (d : Disk),
      0 < (Db.getSourceHealth sourceId d.sourceHealth).integrityFailures →
      0 < (Db.getSourceHealth sourceId
        (recordResult other success integrity now d).sourceHealth).integrityFailures := by
    intro other success integrity now d hd
    show 0 < (Db.getSourceHealth sourceId (Db.recordSourceResult _ _ _ _ _)).integrityFailures
    rw [Db.getSourceHealth_recordSourceResult]
    split
    · exact Nat.lt_of_lt_of_le hd (Nat.le_add_right _ _)
    · exact hd
  exact
    { temps := fun _ _ hd => hd
      downloads := fun _ _ hd => hd
      trace := fun _ _ hd => hd
      failure := fun t e now => by
        refine Keeps.bind (Keeps.modify fun d => hrecord _ _ _ _ d) fun _ =>
          Keeps.whenever fun _ => ?_
        refine Keeps.bind (Keeps.modify fun _ hd => hd) fun _ => ?_
        exact Keeps.bind (fun _ hd => hd) fun _ => Keeps.modify fun _ hd => hd
      cache := fun _ _ hd => hd
      success := fun d other now hd => hrecord other true false now d hd }

/-- Trying a source that delivers such bytes puts an integrity failure on its record. -/
theorem trySource_delivers {b : Bytes} (htree : t.chunkTree = none)
    (hlen : t.total ≤ b.length) (hnot : ¬ Accepted D t.artifact b) {d : Disk}
    (htemp : d.temps t.temp = none) (maxAttempts : ℕ) :
    0 < (Db.getSourceHealth t.sourceId
      (trySource D maxAttempts t (delivers b).run d).2.sourceHealth).integrityFailures := by
  have hkeeps := failed_undisturbed t.sourceId
  obtain ⟨e, d', hrun, hblames⟩ := streamOnce_delivers htree hlen hnot htemp 0
  have hnotCancelled : e ≠ .cancelled := by
    rintro rfl
    cases hblames
  have hrecorded : 0 < (Db.getSourceHealth t.sourceId (recordFailure t e
      ((delivers b).run.attempts 0).now d').2.sourceHealth).integrityFailures := by
    unfold recordFailure
    rw [bind_apply, modify_apply, andThen_ok, hblames, whenever_true rfl]
    show 0 < (Db.getSourceHealth t.sourceId (Db.recordSourceResult _ _ _ _ _)).integrityFailures
    rw [Db.getSourceHealth_recordSourceResult, if_pos rfl]
    exact Nat.succ_pos _
  have hcaught : result (streamOnce D t ((delivers b).run.attempts 0)) d =
      (.ok (.error e), d') := by
    unfold result
    rw [hrun]
  -- the first attempt already fails on the bytes, and later attempts only add to the record
  have hloop : ∀ retries, 0 < (Db.getSourceHealth t.sourceId (attemptLoop D t (delivers b).run
      retries 0 d).2.sourceHealth).integrityFailures := by
    intro retries
    cases retries with
    | zero =>
      unfold attemptLoop
      rw [bind_of_ok hcaught]
      dsimp only
      rw [if_neg hnotCancelled]
      generalize hfail : recordFailure t e ((delivers b).run.attempts 0).now = x at hrecorded ⊢
      rw [bind_apply]
      rcases hx : x d' with ⟨u | e' | _, d''⟩ <;> · rw [hx] at hrecorded; exact hrecorded
    | succ retries =>
      unfold attemptLoop
      rw [bind_of_ok hcaught]
      dsimp only
      rw [if_neg hnotCancelled]
      generalize hfail : recordFailure t e ((delivers b).run.attempts 0).now = x at hrecorded ⊢
      rw [bind_apply]
      rcases hx : x d' with ⟨u | e' | _, d''⟩
      · rw [hx] at hrecorded
        rw [andThen_ok]
        exact Keeps.ite (hkeeps.attemptLoop _ _ _) (Keeps.throw e) d'' hrecorded
      · rw [hx] at hrecorded
        exact hrecorded
      · rw [hx] at hrecorded
        exact hrecorded
  unfold trySource
  show 0 < (Db.getSourceHealth t.sourceId (andThen _ (get d)).2.sourceHealth).integrityFailures
  rw [get_apply, andThen_ok]
  have hone : segmentable t (delivers b).run d = false := rfl
  rw [hone, if_neg Bool.false_ne_true]
  exact hloop _

end Attempt

/-! ## What the tracker may say -/

/-- The publisher's allow-list admits Iroh, by naming it or by naming nothing. -/
def AllowsIroh (manifest : Manifest) : Prop :=
  manifest.access.allowedSourceClasses = [] ∨ .iroh ∈ manifest.access.allowedSourceClasses

/-- The Iroh sources among some, in their order. -/
def irohSources (sources : List Source) : List Source :=
  sources.filter fun source => source.sourceClass = .iroh

/-- The number of Iroh sources that the tracker's answer takes the place of. -/
def replaced (answer : Option ProviderSet) : ℕ :=
  if answer.any ProviderSet.usable then 1 else 0

/-- **An answer of the tracker that harms no Iroh source.** -/
structure Harmless (D : Digests) (artifact : Artifact) (b : Bytes)
    (answer : Option ProviderSet) : Prop where
  /-- It names the BLAKE3 of the artifact's content, or of bytes that are too few to be it. -/
  answered : ∀ set, answer = some set → set.usable = true → ∀ b', Addresses D set.blake3 b' →
    artifact.sizeBytes ≤ b'.length → b' = b
  /-- If the content itself is fetched, from the answer or from a source of the artifact that
  is left, then the artifact accepts it: its size is declared, or it is empty and no git OID
  is. -/
  accepted : (irohSources artifact.sources).drop (replaced answer) ≠ [] ∨
    (∃ set, answer = some set ∧ set.usable = true ∧ Addresses D set.blake3 b) →
      Accepted D artifact b

theorem Addresses.unique (hinj : Function.Injective D.blake3) {address : Text} {b b' : Bytes}
    (h : Addresses D address b) (h' : Addresses D address b') : b = b' := by
  unfold Addresses at h h'
  rw [eqIgnoreAsciiCase_iff, toAsciiLowercase_hexEncode] at h h'
  exact hinj (hexEncode_injective (h.symm.trans h'))

/-- **After the merge** an Iroh source has the tracker's address, or is one of the artifact's
of which the first was replaced. -/
theorem mem_refreshIroh {set : ProviderSet} {sources : List Source} {address : Text}
    {tickets : List Text} {auth : AuthPolicy}
    (h : .iroh address tickets auth ∈ refreshIroh set sources) :
    address = set.blake3 ∨
      .iroh address tickets auth ∈ sources ∧ (irohSources sources).drop 1 ≠ [] := by
  induction sources with
  | nil =>
    cases List.mem_singleton.mp h
    exact Or.inl rfl
  | cons source rest ih =>
    have hother : source.sourceClass ≠ .iroh →
        refreshIroh set (source :: rest) = source :: refreshIroh set rest ∧
          irohSources (source :: rest) = irohSources rest := by
      intro hclass
      refine ⟨?_, List.filter_cons_of_neg (by simpa using hclass)⟩
      cases source with
      | iroh => exact absurd rfl hclass
      | _ => rfl
    by_cases hclass : source.sourceClass = .iroh
    · cases source with
      | iroh blobHash tickets' auth' =>
        obtain hhead | hrest := List.mem_cons.mp h
        · cases hhead
          exact Or.inl rfl
        · refine Or.inr ⟨List.mem_cons_of_mem _ hrest, ?_⟩
          show (irohSources rest) ≠ []
          exact List.ne_nil_of_mem (List.mem_filter.mpr ⟨hrest, rfl⟩)
      | _ => cases hclass
    · obtain ⟨hrefresh, hirohs⟩ := hother hclass
      rw [hrefresh] at h
      obtain hhead | hrest := List.mem_cons.mp h
      · exact absurd (congrArg Source.sourceClass hhead).symm hclass
      · rw [hirohs]
        exact (ih hrest).imp id fun hown => ⟨List.mem_cons_of_mem _ hown.1, hown.2⟩

/-- The tracker's address is among the merged sources. -/
theorem exists_mem_refreshIroh (set : ProviderSet) (sources : List Source) :
    ∃ tickets auth, .iroh set.blake3 tickets auth ∈ refreshIroh set sources := by
  induction sources with
  | nil => exact ⟨_, _, List.mem_singleton.mpr rfl⟩
  | cons source rest ih =>
    obtain ⟨tickets, auth, hmem⟩ := ih
    cases source with
    | iroh => exact ⟨_, _, List.mem_cons_self⟩
    | _ => exact ⟨tickets, auth, List.mem_cons_of_mem _ hmem⟩

/-- The Iroh sources after the first stay as they were. -/
theorem mem_refreshIroh_of_drop {set : ProviderSet} {sources : List Source} {source : Source}
    (h : source ∈ (irohSources sources).drop 1) : source ∈ refreshIroh set sources := by
  induction sources with
  | nil => cases h
  | cons first rest ih =>
    cases first with
    | iroh => exact List.mem_cons_of_mem _ (List.mem_of_mem_filter h)
    | _ => exact List.mem_cons_of_mem _ (ih h)

theorem plannedSources_some (artifact : Artifact) (set : ProviderSet) :
    plannedSources artifact (some set) =
      if set.usable then refreshIroh set artifact.sources else artifact.sources := rfl

/-- **What the merged Iroh sources address.** -/
theorem mem_plannedSources {artifact : Artifact} {answer : Option ProviderSet} {address : Text}
    {tickets : List Text} {auth : AuthPolicy}
    (h : .iroh address tickets auth ∈ plannedSources artifact answer) :
    (∃ set, answer = some set ∧ set.usable = true ∧ address = set.blake3) ∨
      .iroh address tickets auth ∈ artifact.sources ∧
        (irohSources artifact.sources).drop (replaced answer) ≠ [] := by
  have hown : .iroh address tickets auth ∈ artifact.sources →
      (irohSources artifact.sources).drop 0 ≠ [] :=
    fun hmem => List.ne_nil_of_mem (List.mem_filter.mpr ⟨hmem, rfl⟩)
  cases answer with
  | none => exact Or.inr ⟨h, hown h⟩
  | some set =>
    rw [plannedSources_some] at h
    unfold replaced
    rw [Option.any_some]
    cases husable : set.usable with
    | true =>
      rw [husable, if_pos rfl] at h
      exact (mem_refreshIroh h).imp (fun heq => ⟨set, rfl, husable, heq⟩) id
    | false =>
      rw [husable, if_neg Bool.false_ne_true] at h
      exact Or.inr ⟨h, hown h⟩

/-- An Iroh source of the artifact that is left is among the merged sources. -/
theorem exists_mem_plannedSources {artifact : Artifact} {answer : Option ProviderSet}
    (h : (irohSources artifact.sources).drop (replaced answer) ≠ []) :
    ∃ address tickets auth, .iroh address tickets auth ∈ artifact.sources ∧
      .iroh address tickets auth ∈ plannedSources artifact answer := by
  obtain ⟨source, hsource⟩ := List.exists_mem_of_ne_nil _ h
  obtain ⟨hmem, hclass⟩ := List.mem_filter.mp (List.mem_of_mem_drop hsource)
  have hplanned : source ∈ plannedSources artifact answer := by
    cases answer with
    | none => exact hmem
    | some set =>
      rw [plannedSources_some]
      unfold replaced at hsource
      rw [Option.any_some] at hsource
      cases husable : set.usable with
      | true =>
        rw [husable, if_pos rfl] at hsource
        rw [if_pos rfl]
        exact mem_refreshIroh_of_drop hsource
      | false => exact hmem
  cases source with
  | iroh address tickets auth => exact ⟨address, tickets, auth, hmem, hplanned⟩
  | _ => cases hclass

/-! ## Harm -/

section Harm

variable {σ : Type} {zero : σ}
  {scoreSource : SourceClass → SourceHealth → PlatformProfile → DownloadPreference →
    Option ℕ → σ}
  {before : σ → σ → Bool} {manifest : Manifest} {artifact : Artifact}
  {answer : Option ProviderSet}

/-- The sources of a plan are merged sources that the publisher admits. -/
theorem mem_downloadRun {run : DiscoveryRun} {d : Disk} {p : PlannedSource}
    (h : p ∈ (run.downloadRun zero scoreSource before manifest artifact answer d).plan) :
    p.source ∈ plannedSources artifact answer ∧
      (manifest.access.allowedSourceClasses = [] ∨
        p.source.sourceClass ∈ manifest.access.allowedSourceClasses) := by
  obtain ⟨⟨scored, i⟩, hscored, rfl⟩ := List.mem_map.mp h
  obtain ⟨hmem, -, hallowed⟩ := mem_eligible.mp
    ⟨scored, (List.mem_zipIdx hscored).2.2 ▸ List.getElem_mem _, rfl⟩
  exact ⟨hmem, hallowed⟩

/-- The loop reaches a source that delivers such bytes, if all before it cannot be tried. -/
theorem sourceLoop_delivers {ctx : LoopContext} (htree : ctx.chunkTree = none) {b : Bytes}
    (hlen : ctx.artifact.sizeBytes ≤ b.length) (hnot : ¬ Accepted D ctx.artifact b)
    {sourceId : Text} {plan : List PlannedSource}
    (hplan : ∀ p ∈ plan, p.cancelled = false ∧
      (p.run = refuses.run ∨ p.source.sourceId = sourceId ∧ p.run = (delivers b).run))
    (hsome : ∃ p ∈ plan, p.source.sourceId = sourceId ∧ p.run = (delivers b).run) {d : Disk}
    (htemp : d.temps ctx.temp = none) (hhealth : d.sourceHealth = [])
    (partialOwner : Option Text) (lastErr : Option Error) :
    0 < (Db.getSourceHealth sourceId
      (sourceLoop D ctx plan partialOwner lastErr d).2.sourceHealth).integrityFailures := by
  -- the sources before the wrong one refuse and leave the disk as it was; after it no turn takes a
  -- failure back
  induction plan generalizing partialOwner lastErr with
  | nil =>
    obtain ⟨p, hp, -⟩ := hsome
    cases hp
  | cons p rest ih =>
    obtain ⟨hrunning, hrun⟩ := hplan p List.mem_cons_self
    have hfresh : banActive p.now (Db.getSourceHealth p.source.sourceId d.sourceHealth) =
        false := by
      rw [hhealth]
      rfl
    have hkeep : ∀ owner : Prop, [Decidable owner] →
        (whenever owner (modify (truncateTo ctx.temp 0)) : Program Disk Error Unit) d =
          (.ok (), d) := by
      intro owner _
      unfold whenever
      split
      · rw [modify_apply, truncateTo_zero, htemp, Option.map_none, ← htemp,
          Function.update_eq_self]
      · rfl
    unfold sourceLoop
    rw [hrunning, if_neg Bool.false_ne_true, bind_apply, get_apply, andThen_ok, hfresh,
      if_neg Bool.false_ne_true, bind_of_ok (hkeep _)]
    obtain hrefuses | ⟨hid, hdelivers⟩ := hrun
    · have htried : result (trySource D ctx.maxAttempts (ctx.target p.source) p.run) d =
          (.ok (.error (.other "no adapter".toList)), d) := by
        rw [hrefuses]
        rfl
      rw [bind_of_ok htried]
      dsimp only
      rw [if_neg (by decide), bind_apply, get_apply, andThen_ok]
      refine ih (fun p' hp' => hplan p' (List.mem_cons_of_mem _ hp')) ?_ _ _
      obtain ⟨p', hp', hid', hrun'⟩ := hsome
      obtain rfl | hp' := List.mem_cons.mp hp'
      · have hpre : refuses.run.preflight = (delivers b).run.preflight :=
          congrArg SourceRun.preflight (hrefuses.symm.trans hrun')
        cases hpre
      · exact ⟨p', hp', hid', hrun'⟩
    -- this source delivers: the failure is on its record at the end of its turn, whichever way the
    -- turn ends
    · have hkeeps := failed_undisturbed sourceId
      have htried := trySource_delivers (D := D) (t := ctx.target p.source) htree hlen hnot htemp
        ctx.maxAttempts
      rw [← hdelivers, show (ctx.target p.source).sourceId = sourceId from hid] at htried
      have hfound : ∀ m : BlobMeta, Keeps (fun d =>
          0 < (Db.getSourceHealth sourceId d.sourceHealth).integrityFailures) (do
            modify fun d => { d with
              downloads := Db.setDownloadState ctx.downloadId "complete".toList d.downloads
              cache := finalizeBlob D ctx.artifact m ctx.buildsTree d.cache }
            pure ⟨ctx.artifact.path, m.blake3, false, some p.source.sourceId, m.sizeBytes⟩ :
              Program Disk Error ArtifactOutcome) :=
        fun m => Keeps.bind (Keeps.modify fun _ hd => hd) fun _ => Keeps.pure _
      have hgoesOn : ∀ e : Error, Keeps (fun d =>
          0 < (Db.getSourceHealth sourceId d.sourceHealth).integrityFailures)
          (if e = .cancelled then finishCancelled ctx.discard ctx.downloadId ctx.temp
          else do
            let d ← get
            sourceLoop D ctx rest
              (if 0 < d.tempLen ctx.temp then some p.source.sourceId else none)
              (some e) : Program Disk Error ArtifactOutcome) :=
        fun e => Keeps.ite (hkeeps.finishCancelled _ _ _)
          (Keeps.bind Keeps.get fun d => hkeeps.sourceLoop _ _ _ _)
      rw [bind_apply]
      unfold result
      rcases hx : trySource D ctx.maxAttempts (ctx.target p.source) p.run d with ⟨m | e | _, d'⟩
      · rw [hx] at htried
        exact hfound m d' htried
      · rw [hx] at htried
        exact hgoesOn e d' htried
      · rw [hx] at htried
        exact htried

/-- **Bytes that an artifact does not accept harm the source that has them for its address**,
if the publisher admits Iroh and the bytes are not too few. -/
theorem exists_harm {address : Text} {tickets : List Text} {auth : AuthPolicy}
    (hmem : .iroh address tickets auth ∈ plannedSources artifact answer)
    (hallows : AllowsIroh manifest) {b : Bytes} (haddress : Addresses D address b)
    (hlen : artifact.sizeBytes ≤ b.length) (hnot : ¬ Accepted D artifact b) :
    ∃ run : DiscoveryRun,
      VerifiedFetches D
        (run.downloadRun zero scoreSource before manifest artifact answer Disk.empty).plan ∧
      0 < (Db.getSourceHealth (irohId address) (downloadDiscovered zero scoreSource before D
        manifest artifact answer run Disk.empty).sourceHealth).integrityFailures := by
  -- whoever is planned under the address delivers the bytes, and nobody else is reached
  let eligible := (planArtifactWith zero scoreSource before false manifest
    (discovered artifact answer) .desktop .auto (knownPeers answer)
    (fun sourceId => Db.getSourceHealth sourceId Disk.empty.sourceHealth) 0).eligible
  let turns : ℕ → SourceTurn := fun i =>
    if (eligible[i]?).any (fun scored => scored.source.sourceId = irohId address) then delivers b
    else refuses
  let run : DiscoveryRun := ⟨1, .desktop, .auto, false, 0, false, false, false, turns⟩
  have hplan : (run.downloadRun zero scoreSource before manifest artifact answer
      Disk.empty).plan = eligible.zipIdx.map fun (scored, i) =>
        ⟨scored.source, (turns i).cancelled, (turns i).now, (turns i).run⟩ := rfl
  have hturn : ∀ p ∈ (run.downloadRun zero scoreSource before manifest artifact answer
      Disk.empty).plan, p.cancelled = false ∧ (p.run = refuses.run ∨
        p.source.sourceId = irohId address ∧ p.run = (delivers b).run) := by
    intro p hp
    rw [hplan] at hp
    obtain ⟨⟨scored, i⟩, hscored, rfl⟩ := List.mem_map.mp hp
    have hget : eligible[i]? = some scored := List.mem_zipIdx_iff_getElem?.mp hscored
    show (turns i).cancelled = false ∧ ((turns i).run = _ ∨ _ ∧ (turns i).run = _)
    by_cases hid : scored.source.sourceId = irohId address
    · have hdelivers : turns i = delivers b := by
        show (if (eligible[i]?).any _ then _ else _) = _
        rw [hget, Option.any_some, if_pos (decide_eq_true hid)]
      rw [hdelivers]
      exact ⟨rfl, Or.inr ⟨hid, rfl⟩⟩
    · have hrefuses : turns i = refuses := by
        show (if (eligible[i]?).any _ then _ else _) = _
        rw [hget, Option.any_some, if_neg (by simpa using hid)]
      rw [hrefuses]
      exact ⟨rfl, Or.inl rfl⟩
  have hsome : ∃ p ∈ (run.downloadRun zero scoreSource before manifest artifact answer
      Disk.empty).plan, p.source.sourceId = irohId address ∧ p.run = (delivers b).run := by
    have heligible : ∃ scored ∈ eligible, scored.source = .iroh address tickets auth :=
      mem_eligible.mpr ⟨hmem, ⟨rfl, rfl⟩, hallows⟩
    obtain ⟨scored, hscored, hsource⟩ := heligible
    obtain ⟨i, hi⟩ := List.getElem?_of_mem hscored
    have hid : scored.source.sourceId = irohId address := by
      rw [hsource]
      rfl
    refine ⟨⟨scored.source, (turns i).cancelled, (turns i).now, (turns i).run⟩, ?_, hid, ?_⟩
    · rw [hplan]
      exact List.mem_map.mpr ⟨(scored, i), List.mem_zipIdx_iff_getElem?.mpr hi, rfl⟩
    · show (if (eligible[i]?).any _ then _ else _ : SourceTurn).run = _
      rw [show eligible[i]? = some scored from hi, Option.any_some, if_pos (decide_eq_true hid)]
  refine ⟨run, fun p hp address' tickets' auth' hsource n o ho => ?_, ?_⟩
  · obtain ⟨-, hrefuses | ⟨hid, hdelivers⟩⟩ := hturn p hp
    · rw [hrefuses] at ho
      cases ho
    · rw [hsource] at hid
      have hsame : address' = address := List.append_cancel_left hid
      rw [hdelivers] at ho
      exact hsame ▸ serves_delivers haddress n o ho
  · unfold downloadDiscovered downloadArtifact
    have hcached : cachedBlake3 Disk.empty.cache (discovered artifact answer) = none := by
      unfold cachedBlake3 Cas.hasBlob
      cases Cas.blobPath (discovered artifact answer).hashes.blake3 <;>
        cases (discovered artifact answer).hashes.hasBlake3 <;>
        cases (discovered artifact answer).hashes.hasSha256 <;>
        cases (discovered artifact answer).hashes.hasGitBlobSha1 <;> rfl
    have htree : cachedChunkTree D Disk.empty.cache (discovered artifact answer) = none := by
      unfold cachedChunkTree
      cases (discovered artifact answer).chunking <;> rfl
    have hnonempty : (run.downloadRun zero scoreSource before manifest artifact answer
        Disk.empty).plan.isEmpty = false := by
      obtain ⟨p, hp, -⟩ := hsome
      cases hlist : (run.downloadRun zero scoreSource before manifest artifact answer
          Disk.empty).plan with
      | nil =>
        rw [hlist] at hp
        cases hp
      | cons => rfl
    rw [bind_apply, get_apply, andThen_ok, hcached]
    dsimp only
    rw [show (run.downloadRun zero scoreSource before manifest artifact answer
      Disk.empty).cancelled = false from rfl, if_neg Bool.false_ne_true, hnonempty,
      if_neg Bool.false_ne_true]
    unfold transferArtifact
    simp only [bind_apply, modify_apply, get_apply, andThen_ok]
    rw [htree]
    exact sourceLoop_delivers rfl hlen (fun h => hnot ⟨h.digests, h.size, h.git⟩) hturn hsome
      rfl rfl none none

/-- A BLAKE3 that is declared and valid names a blob. -/
theorem blobPath_of_validateArtifact {artifact : Artifact}
    (hvalid : validateArtifact artifact = .ok ()) (hblake3 : artifact.hashes.hasBlake3 = true) :
    ∃ key, Cas.blobPath artifact.hashes.blake3 = .ok key := by
  have hdigest := (validateHexDigest_of_validateArtifact hvalid).1 hblake3
  obtain ⟨hlen, hhex⟩ := validateHexDigestLen_iff.mp hdigest
  refine ⟨_, if_neg ?_⟩
  rw [hlen, hhex]
  decide

/-- **Discovery cannot poison a source, as long as the tracker tells the truth.** Take an
artifact that is valid, declares a BLAKE3, and describes some content, whose own Iroh sources
address that content, and whatever the tracker answers. After any operations, whatever a call
of `download_artifact` meets, if Iroh fetches are verified, nothing is put on record against
an Iroh source and nothing of one goes into quarantine: this is so exactly if the publisher
does not admit Iroh, or the answer is harmless. -/
theorem discovery_cannot_poison_iff (hinj : Function.Injective D.blake3)
    (hvalid : validateArtifact artifact = .ok ()) (hblake3 : artifact.hashes.hasBlake3 = true)
    {b : Bytes} (hdescribes : artifact.Describes D b)
    (hown : ∀ address tickets auth, .iroh address tickets auth ∈ artifact.sources →
      Addresses D address b) :
    (∀ (ops : List Op) (run : DiscoveryRun),
      VerifiedFetches D (run.downloadRun zero scoreSource before manifest artifact answer
        (runOps D ops Disk.empty)).plan →
      ∀ address, Unharmed (irohId address) (runOps D ops Disk.empty)
        (downloadDiscovered zero scoreSource before D manifest artifact answer run
          (runOps D ops Disk.empty))) ↔
    (AllowsIroh manifest → Harmless D artifact b answer) := by
  -- the artifact names a BLAKE3, so `b` is the only content it accepts
  have hunique : ∀ {b' : Bytes}, Accepted D artifact b' → b' = b := by
    intro b' haccepted
    have h := haccepted.digests.blake3 hblake3
    exact Addresses.unique hinj h (hdescribes.digests.blake3 hblake3)
  have hlen : ¬ Accepted D artifact b → artifact.sizeBytes ≤ b.length := by
    intro _
    by_cases hzero : artifact.sizeBytes = 0
    · rw [hzero]
      exact Nat.zero_le _
    · exact (hdescribes.size hzero).ge
  constructor
  -- one harmful source suffices: on an empty disk, a run that fetches from it alone blames it
  · intro hsafe hallows
    have hharm : ∀ {address tickets auth b'},
        .iroh address tickets auth ∈ plannedSources artifact answer → Addresses D address b' →
        artifact.sizeBytes ≤ b'.length → Accepted D artifact b' := by
      intro address tickets auth b' hmem haddress hlen
      by_contra hnot
      obtain ⟨run, hverified, hfailed⟩ : ∃ run : DiscoveryRun,
          VerifiedFetches D (run.downloadRun zero scoreSource before manifest artifact answer
            Disk.empty).plan ∧
          0 < (Db.getSourceHealth (irohId address) (downloadDiscovered zero scoreSource before D
            manifest artifact answer run Disk.empty).sourceHealth).integrityFailures :=
        exists_harm hmem hallows haddress hlen hnot
      have hsame := (hsafe [] run hverified address).failures
      rw [show runOps D [] Disk.empty = Disk.empty from rfl] at hsame
      rw [hsame] at hfailed
      exact Nat.lt_irrefl 0 hfailed
    have hanswer : ∀ {set}, answer = some set → set.usable = true →
        ∃ tickets auth, .iroh set.blake3 tickets auth ∈ plannedSources artifact answer := by
      intro set hset husable
      rw [hset, plannedSources_some, husable, if_pos rfl]
      exact exists_mem_refreshIroh set _
    refine ⟨fun set hset husable b' haddress hlen' => ?_, fun hfetched => ?_⟩
    · obtain ⟨tickets, auth, hmem⟩ := hanswer hset husable
      exact hunique (hharm hmem haddress hlen')
    · by_contra hnot
      obtain hleft | ⟨set, hset, husable, haddress⟩ := hfetched
      · obtain ⟨address, tickets, auth, hsource, hmem⟩ := exists_mem_plannedSources hleft
        exact hnot (hharm hmem (hown address tickets auth hsource) (hlen hnot))
      · obtain ⟨tickets, auth, hmem⟩ := hanswer hset husable
        exact hnot (hharm hmem haddress (hlen hnot))
  -- an address is blamed only for bytes served under it that the artifact does not accept, and no
  -- planned address has such bytes
  · intro hharmless ops run hverified address
    refine downloadArtifact_unharmed _ _ _ _ _ fun hcached p hp hid => ?_
    obtain ⟨tickets, auth, hsource⟩ := eq_iroh_of_sourceId hid
    obtain ⟨hmem, hallowed⟩ := mem_downloadRun hp
    rw [hsource] at hmem hallowed
    have hok := hharmless hallowed
    obtain ⟨key, hkey⟩ := blobPath_of_validateArtifact hvalid hblake3
    have htree : cachedChunkTree D (runOps D ops Disk.empty).cache
        (discovered artifact answer) = none :=
      (runOps_treesBeside D ops).cachedChunkTree hblake3 hkey hcached
    refine not_blames_of_serves htree (hverified p hp address tickets auth hsource)
      fun b' haddress => ?_
    show b'.length < artifact.sizeBytes ∨ Accepted D (discovered artifact answer) b'
    refine or_iff_not_imp_left.mpr fun hlong => ?_
    have haccepted : Accepted D artifact b' := by
      obtain ⟨set, hset, husable, heq⟩ | ⟨hmine, hleft⟩ := mem_plannedSources hmem
      · rw [heq] at haddress
        obtain rfl := hok.answered set hset husable b' haddress (Nat.le_of_not_lt hlong)
        exact hok.accepted (Or.inr ⟨set, hset, husable, haddress⟩)
      · obtain rfl := Addresses.unique hinj (hown address tickets auth hmine) haddress
        exact hok.accepted (Or.inl hleft)
    exact ⟨haccepted.digests, haccepted.size, haccepted.git⟩

end Harm

/-! ## A tracker that lies -/

/-- A manifest of the file `abc`, with the artifact given and an access policy that
restricts nothing. -/
def peerManifest (artifact : Artifact) : Manifest where
  schemaVersion := SCHEMA_VERSION
  manifestId := "m".toList
  publisherId := "hf:someone/something".toList
  access := ⟨false, false, []⟩
  artifacts := [artifact]

/-- The tracker names the BLAKE3 of something else, a file that differs from `abc` in its
first byte. -/
def strayAnswer : ProviderSet where
  blake3 := hexEncode (strayDigests.blake3 (0x78 :: abc.tail))
  nodes := ["nodeaaa".toList]

/-- The peers have what the tracker names, and deliver it as it was verified. -/
def strayRun : DiscoveryRun :=
  ⟨1, .desktop, .auto, false, 0, false, false, false, fun _ => delivers (0x78 :: abc.tail)⟩

/-- What a call with a tracker's answer leaves of an empty store; the scores of one source do
not matter. -/
def afterDiscovery (D : Digests) (artifact : Artifact) (set : ProviderSet)
    (run : DiscoveryRun) : Disk :=
  downloadDiscovered () (fun _ _ _ _ _ => ()) (fun _ _ => true) D (peerManifest artifact) artifact
    (some set) run Disk.empty

/-- **A tracker has an honest peer banned**: it names the BLAKE3 of something else, which the
peer has and delivers. -/
theorem honest_peer_banned :
    (validateArtifact abcArtifact = .ok () ∧ abcArtifact.hashes.hasBlake3 = true ∧
      abcArtifact.Describes strayDigests abc ∧ irohSources abcArtifact.sources = []) ∧
    VerifiedFetches strayDigests (strayRun.downloadRun () (fun _ _ _ _ _ => ()) (fun _ _ => true)
      (peerManifest abcArtifact) abcArtifact (some strayAnswer) Disk.empty).plan ∧
    (Db.getSourceHealth (irohId strayAnswer.blake3)
      (afterDiscovery strayDigests abcArtifact strayAnswer strayRun).sourceHealth).banned = true ∧
    ¬ Unharmed (irohId strayAnswer.blake3) Disk.empty
      (afterDiscovery strayDigests abcArtifact strayAnswer strayRun) := by
  refine ⟨⟨by decide +kernel, by decide +kernel, ⟨⟨?_, ?_, ?_⟩, fun _ => rfl⟩, rfl⟩,
    fun p hp address tickets auth hsource n o ho => ?_, by decide +kernel, fun hsafe => ?_⟩
  · exact fun _ => by decide +kernel
  · exact fun h => nomatch h
  · exact fun h => nomatch h
  · have hmem := (mem_downloadRun hp).1
    have hplanned : plannedSources abcArtifact (some strayAnswer) =
        [.iroh strayAnswer.blake3 strayAnswer.nodes .none] := by decide +kernel
    rw [hplanned, hsource] at hmem
    cases List.mem_singleton.mp hmem
    obtain ⟨⟨scored, i⟩, -, rfl⟩ := List.mem_map.mp hp
    exact serves_delivers (b := 0x78 :: abc.tail) (by
      show eqIgnoreAsciiCase _ _ = true
      decide +kernel) n o ho
  · exact absurd hsafe.failures (by decide +kernel)

/-- The file `abc`, with a source of its own at a peer. -/
def abcAtPeer : Artifact where
  path := "model.bin".toList
  sizeBytes := 3
  hashes := ⟨(hashBytes sampleDigests abc).blake3, [], []⟩
  chunking := none
  sources := [.iroh (hashBytes sampleDigests abc).blake3 ["nodeaaa".toList] .none]

/-- The tracker knows another peer, of the content that the artifact names itself. -/
def abcAnswer : ProviderSet where
  blake3 := (hashBytes sampleDigests abc).blake3
  nodes := ["nodebbb".toList]

/-- With a tracker that names the content itself, no peer comes to harm. -/
theorem told_content_unharmed :
    abcAtPeer.hashes.Match sampleDigests abc ∧
      ∀ (ops : List Op) (run : DiscoveryRun),
        VerifiedFetches sampleDigests (run.downloadRun () (fun _ _ _ _ _ => ())
          (fun _ _ => true) (peerManifest abcAtPeer) abcAtPeer (some abcAnswer)
          (runOps sampleDigests ops Disk.empty)).plan →
        ∀ address, Unharmed (irohId address) (runOps sampleDigests ops Disk.empty)
          (downloadDiscovered () (fun _ _ _ _ _ => ()) (fun _ _ => true) sampleDigests
            (peerManifest abcAtPeer) abcAtPeer (some abcAnswer) run
            (runOps sampleDigests ops Disk.empty)) := by
  have hblake3 : eqIgnoreAsciiCase (hashBytes sampleDigests abc).blake3
      (hexEncode (sampleDigests.blake3 abc)) = true := by decide +kernel
  have hmatch : abcAtPeer.hashes.Match sampleDigests abc :=
    ⟨fun _ => hblake3, (nomatch ·), (nomatch ·)⟩
  refine ⟨hmatch, (discovery_cannot_poison_iff sampleDigests_injective (by decide +kernel)
    (by decide +kernel) ⟨hmatch, fun _ => rfl⟩ ?_).mpr fun _ => ⟨?_, fun _ => ?_⟩⟩
  · intro address tickets auth hmem
    cases List.mem_singleton.mp hmem
    exact hblake3
  · intro set hset _ b' haddress _
    cases hset
    exact Addresses.unique sampleDigests_injective haddress hblake3
  · exact ⟨hmatch, rfl, (nomatch ·)⟩

end Atlas
