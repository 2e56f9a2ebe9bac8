import Atlas.Segmented
import Atlas.StreamInvariant

/-!
# A rule for streaming attempts

What holds of one attempt is shown once for each thing it can do: fail to open,
open, take a turn of its loop, end. The loop invariant may speak of the events
that are still to come, so that a condition on the whole stream can be carried
along it.
-/

namespace Atlas

open Text Program

variable {D : Digests} {t : Target}

/-! ## The loop -/

/-- **The rule for the read loop.** A turn that goes on keeps the invariant, of
the events that are left; one that does not owes `E`. -/
theorem foldlM_streamStep_rule {ceiling : Option ℕ}
    {H : List StreamEvent → StreamState → List Cell → Disk → Prop}
    {E : Exit Error StreamState → Disk → Prop}
    (hstep : ∀ ev evs st file d r d', H (ev :: evs) st file d → InStep D t file st d →
      StepSpec D t ceiling st ev file d (r, d') →
      match r with
      | .ok st' => ∀ file', d'.temps t.temp = some file' → H evs st' file' d'
      | r => E r d')
    (events : List StreamEvent) {st : StreamState} {file : List Cell} {d : Disk}
    (hin : InStep D t file st d) (hH : H events st file d) :
    match events.foldlM (streamStep D t ceiling) st d with
    | (.ok st', d') => ∃ file', InStep D t file' st' d' ∧ H [] st' file' d'
    | (r, d') => E r d' := by
  induction events generalizing st file d with
  | nil => exact ⟨file, hin, hH⟩
  | cons ev evs ih =>
    rw [List.foldlM_cons, bind_apply]
    have hspec := streamStep_spec D t ceiling ev hin.temp hin.length
    rcases hrun : streamStep D t ceiling st ev d with ⟨st' | e | _, d'⟩
    · rw [hrun] at hspec
      obtain ⟨chunk, hin'⟩ := streamStep_inStep hin hrun
      exact ih hin' (hstep ev evs st file d _ d' hH hin hspec _ hin'.temp)
    · rw [hrun] at hspec
      exact hstep ev evs st file d _ d' hH hin hspec
    · rw [hrun] at hspec
      exact hstep ev evs st file d _ d' hH hin hspec

/-! ## The commit -/

/-- What handing the temp over does to the partial: it is gone, or still there,
and nobody is blamed for a commit that fails. -/
structure HandedOver (t : Target) (d : Disk) (r : Exit Error BlobMeta) (d' : Disk) :
    Prop where
  temp : d'.temps t.temp = none ∨ d'.temps t.temp = d.temps t.temp
  downloads : d'.downloads = d.downloads
  trace : d'.trace = d.trace
  blameless : ∀ e, r = .err e → e.blames = false

theorem blobPath_blameless {blake3 : Text} {e : Error}
    (h : Cas.blobPath blake3 = .error e) : e.blames = false := by
  unfold Cas.blobPath at h
  split at h
  · cases h
    rfl
  · cases h

theorem commitBlob_handedOver (t : Target) (hashes : Hashes) (size : ℕ) (d : Disk) :
    HandedOver t d (Cas.commitBlob t.temp hashes size d).1
      (Cas.commitBlob t.temp hashes size d).2 := by
  unfold Cas.commitBlob
  rw [bind_apply]
  cases hkey : Cas.blobPath hashes.blake3 with
  | error e =>
    exact ⟨Or.inr rfl, rfl, rfl, fun e' he => by cases he; exact blobPath_blameless hkey⟩
  | ok key =>
    rw [ofExcept_ok, andThen_ok, bind_apply, get_apply, andThen_ok]
    cases hblob : d.cache.blobs key with
    | some b =>
      dsimp only
      rw [bind_apply, modify_apply, andThen_ok]
      cases d.cache.metas key with
      | some m => exact ⟨Or.inl (Function.update_self ..), rfl, rfl, fun e h => nomatch h⟩
      | none => exact ⟨Or.inl (Function.update_self ..), rfl, rfl, fun e h => nomatch h⟩
    | none =>
      dsimp only
      cases htemp : d.temps t.temp with
      | none => exact ⟨Or.inr rfl, rfl, rfl, fun e h => by cases h; rfl⟩
      | some cells => exact ⟨Or.inl (Function.update_self ..), rfl, rfl, fun e h => nomatch h⟩

/-! ## The attempt -/

/-- Verifying the end of a stream changes nothing. -/
theorem verifyStream_store (D : Digests) (t : Target) (st : StreamState) (d : Disk) :
    (∃ r, verifyStream D t st d = (.ok r, d)) ∨
      ∃ e, verifyStream D t st d = (.err e, d) := by
  unfold verifyStream
  split
  · exact Or.inr ⟨_, rfl⟩
  · cases st.verifier.finish D with
    | error e => exact Or.inr ⟨e, rfl⟩
    | ok hashes => exact Or.inl ⟨_, rfl⟩

/-- **The rule for an attempt.** `H` is the invariant of its loop: it speaks of
the opening, of what was kept of the partial, and of the events that are still
to come. -/
theorem streamOnce_rule {attempt : Attempt} {P : Disk → Prop}
    {H : Opening → List Cell → List StreamEvent → StreamState → List Cell → Disk → Prop}
    {E : Exit Error BlobMeta → Disk → Prop}
    (hfailed : ∀ d e file, P d → e.blames = false →
      (∀ cells, file = some cells → cells = resumable t d ∨ cells = []) →
      E (.err e) { d with
        temps := Function.update d.temps t.temp file
        trace := d.trace ++ resumedNote t d })
    (hopened : ∀ d opening kept v, P d → (kept = resumable t d ∨ kept = []) →
      H opening kept opening.events ⟨v, kept.length, 0⟩ kept { d with
        temps := Function.update d.temps t.temp (some kept)
        trace := d.trace ++ resumedNote t d ++
          [.opened t.sourceId (rowOwner t d) kept t.total opening] })
    (hstep : ∀ opening kept ev evs st file d r d', H opening kept (ev :: evs) st file d →
      InStep D t file st d →
      StepSpec D t (unknownSizeCeiling t opening kept.length) st ev file d (r, d') →
      match r with
      | .ok st' => ∀ file', d'.temps t.temp = some file' → H opening kept evs st' file' d'
      | .err e => E (.err e) d'
      | .crash => E .crash d')
    (hdied : ∀ opening kept st file d, H opening kept [] st file d → InStep D t file st d →
      opening.ending = .died → E .crash d)
    (hverify : ∀ opening kept st file d e, H opening kept [] st file d →
      InStep D t file st d → opening.ending = .endOfStream →
      verifyStream D t st d = (.err e, d) → E (.err e) d)
    (hcommit : ∀ opening kept st file d r d', H opening kept [] st file d →
      InStep D t file st d → HandedOver t d r d' → E r d') :
    Triple P (streamOnce D t attempt) E := by
  intro d hP
  unfold streamOnce streamToCommit
  rw [bind_apply, bind_apply]
  have hspec := openStream_spec D t attempt d
  rcases hopen : openStream D t attempt d with ⟨⟨opening, st₀⟩ | e | _, d₁⟩
  · rw [hopen] at hspec
    rw [andThen_ok]
    -- the connection stands: the loop's rule carries `H` over the events, then the exit is one of
    -- four: the engine died, the digests do not fit, the blob is committed, or the commit fails
    cases hspec with
    | @opened _ kept v hopening hkept hfed =>
      have hin : InStep D t kept ⟨v, kept.length, 0⟩ { d with
          temps := Function.update d.temps t.temp (some kept)
          trace := d.trace ++ resumedNote t d ++
            [.opened t.sourceId (rowOwner t d) kept t.total opening] } :=
        ⟨Function.update_self .., rfl, hfed⟩
      have hloop := foldlM_streamStep_rule (H := H opening kept)
        (E := fun r d => match r with
          | .ok _ => True
          | .err e => E (.err e) d
          | .crash => E .crash d)
        (fun ev evs st file d r d' hH hin hs => by
          have h := hstep opening kept ev evs st file d r d' hH hin hs
          cases r <;> exact h) opening.events hin (hopened d opening kept v hP hkept)
      dsimp only
      rw [bind_apply]
      generalize opening.events.foldlM (streamStep D t (unknownSizeCeiling t opening
        kept.length)) ⟨v, kept.length, 0⟩ _ = run at hloop ⊢
      rcases run with ⟨st' | e | _, d₂⟩
      · obtain ⟨file', hin', hH⟩ := hloop
        rw [andThen_ok]
        -- only a stream that ended is verified; a process that dies here leaves the partial file as
        -- the loop left it
        cases hending : opening.ending with
        | died => exact hdied _ _ _ _ _ hH hin' hending
        | endOfStream =>
          dsimp only
          obtain ⟨⟨hashes, size⟩, hok⟩ | ⟨e, herr⟩ := verifyStream_store D t st' d₂
          · rw [hok, andThen_ok]
            dsimp only
            rw [bind_apply]
            have hover := commitBlob_handedOver t hashes size d₂
            rcases hcommitted : Cas.commitBlob t.temp hashes size d₂ with ⟨m | e | _, d₃⟩
            · rw [hcommitted] at hover
              exact hcommit _ _ _ _ _ _ _ hH hin'
                ⟨hover.temp, hover.downloads, hover.trace, fun e h => nomatch h⟩
            · rw [hcommitted] at hover
              exact hcommit _ _ _ _ _ _ _ hH hin' hover
            · rw [hcommitted] at hover
              exact hcommit _ _ _ _ _ _ _ hH hin'
                ⟨hover.temp, hover.downloads, hover.trace, fun e h => nomatch h⟩
          · rw [herr]
            exact hverify _ _ _ _ _ _ hH hin' hending herr
      · exact hloop
      · exact hloop
  · rw [hopen] at hspec
    cases hspec with
    | failed hblames hfile => exact hfailed _ _ _ hP hblames hfile
  · rw [hopen] at hspec
    cases hspec

/-! ## Segments -/

/-- Every segment ends within the file. -/
theorem segmentRanges_le (total seg : ℕ) (hseg : 0 < seg) (start : ℕ) :
    ∀ range ∈ segmentRanges total seg hseg start, range.2 ≤ total := by
  induction start using segmentRanges.induct total seg hseg with
  | case1 start hlt ih =>
    intro range hrange
    rw [segmentRanges, if_pos hlt] at hrange
    obtain rfl | hrange := List.mem_cons.mp hrange
    · exact Nat.min_le_right _ _
    · exact ih range hrange
  | case2 start hge =>
    intro range hrange
    rw [segmentRanges, if_neg hge] at hrange
    cases hrange

/-- The store after a connection got `taken` for an offset, of which `landed`
was written. -/
def segmentReceived (t : Target) (offset : ℕ) (taken landed : Bytes) (d : Disk) : Disk :=
  writeTemp t.temp t.sourceId offset landed (d.note (.delivered t.sourceId offset taken))

/-- **What one turn of one connection can do to the store**: nothing; or it
writes within the file, and may refresh the row. -/
inductive SegmentSpec (t : Target) (d : Disk) : Disk → Prop
  | kept : SegmentSpec t d d
  | wrote {offset : ℕ} {taken landed : Bytes} (hlanded : landed <+: taken)
      (hfit : offset + taken.length ≤ t.total) :
      SegmentSpec t d (segmentReceived t offset taken landed d)
  | refreshed {offset done : ℕ} {taken : Bytes} (hfit : offset + taken.length ≤ t.total) :
      SegmentSpec t d (refreshDownload t.downloadId done t.sourceId
        (segmentReceived t offset taken taken d))

theorem segmentStep_spec {ranges : List (ℕ × ℕ)} (hranges : ∀ range ∈ ranges, range.2 ≤ t.total)
    (st : SegmentState) (turn : ℕ × SegmentInput) (d : Disk) :
    SegmentSpec t d (segmentStep t ranges st turn d).2 := by
  unfold segmentStep
  cases hrange : ranges[turn.1]? with
  | none => exact .kept
  | some range =>
    obtain ⟨start, stop⟩ := range
    have hstop : stop ≤ t.total := hranges _ (List.mem_of_getElem? hrange)
    dsimp only
    cases turn.2 with
    | openFailed e =>
      dsimp only
      split <;> exact .kept
    | opened honoursRange =>
      dsimp only
      generalize (if honoursRange then start else 0) = actual
      split <;> exact .kept
    | endOfStream =>
      dsimp only
      split <;> exact .kept
    | event ev =>
      dsimp only
      split
      · exact .kept
      · rename_i hopen
        have hgot : st.got turn.1 < stop - start :=
          Nat.lt_of_not_le fun hle => hopen (Or.inr hle)
        split
        · exact .kept
        · cases ev.item with
          | error e => exact .kept
          | ok chunk =>
            -- the chunk is cut to what the range lacks, so the write ends inside the file
            have hfit : start + st.got turn.1 +
                (chunk.take (stop - start - st.got turn.1)).length ≤ t.total := by
              rw [List.length_take]
              omega
            dsimp only
            cases ev.write with
            | failed landed message => exact .wrote (List.take_prefix _ _) hfit
            | died landed => exact .wrote (List.take_prefix _ _) hfit
            | written =>
              simp only [bind_apply, modify_apply, andThen_ok]
              split
              · exact .refreshed hfit
              · exact .wrote List.prefix_rfl hfit

/-- **The rule for a segmented transfer.** `W` holds while the connections run;
nothing is ever blamed on the source. -/
theorem streamSegmented_rule {connections : ℕ} {run : SegmentedRun} {P W E : Disk → Prop}
    (hunsuited : ∀ d, P d → E d)
    (hpresize : ∀ d, P d → W (presizeTemp t d))
    (hturn : ∀ d d', W d → SegmentSpec t d d' → W d')
    (hreset : ∀ d, W d → E (resetSegmentedPartial t d))
    (hover : ∀ d r d', W d → HandedOver t d r d' → E d')
    (hkeep : ∀ d, W d → E d) :
    Triple P (streamSegmented D t connections run) (fun _ d => E d) := by
  unfold streamSegmented
  dsimp only
  by_cases hn : max (min connections (max (t.total / SEGMENT_MIN_BYTES) 1)) 1 < 2
  · rw [dif_pos hn]
    exact Triple.throw hunsuited
  · rw [dif_neg hn]
    refine Triple.bind (R := fun _ d => W d) (Triple.modify hpresize) (fun _ => ?_)
      (fun _ => hkeep) hkeep
    -- each turn of a connection satisfies `SegmentSpec`, so `W` survives any interleaving of them
    have hturns : Keeps W (runSegments t run (segmentRanges t.total _ (segment_pos
        (Nat.le_of_not_lt hn)) 0)) := by
      refine Keeps.bind (Keeps.foldlM (fun st turn d hd => hturn d _ hd
        (segmentStep_spec (segmentRanges_le _ _ _ _) st turn d)) _ _) fun st => ?_
      exact Keeps.ite (Keeps.pure ()) Keeps.die
    refine Triple.bind (Keeps.result hturns) (fun r => ?_) (fun _ => hkeep) hkeep
    cases r with
    -- a cancelled run resets the partial here; after any other failure the caller does
    | error e =>
      refine Triple.bind (R := fun _ d => E d)
        (Triple.ite (fun _ => Triple.modify hreset) fun _ => Triple.pure hkeep)
        (fun _ => Triple.throw fun _ => id) (fun _ _ => id) fun _ => id
    | ok u =>
      refine Triple.ite (fun _ => ?_) fun _ => ?_
      · exact Triple.bind (R := fun _ d => E d) (Triple.modify hreset)
          (fun _ => Triple.throw fun _ => id) (fun _ _ => id) fun _ => id
      · refine Triple.bind (R := fun _ d => W d) ?_ (fun hashes => ?_) (fun _ => hkeep) hkeep
        · unfold verifyTempFull
          refine Keeps.bind Keeps.get fun d => ?_
          cases d.temps t.temp with
          | none => exact Keeps.throw _
          | some file => exact Keeps.ofExcept _
        · intro d hd
          rw [bind_apply]
          have hcommit := commitBlob_handedOver t hashes t.total d
          rcases hcommitted : Cas.commitBlob t.temp hashes t.total d with ⟨m | e | _, d'⟩
          · rw [hcommitted] at hcommit
            exact hover d (.ok m) (recordResult t.sourceId true false run.now d') hd
              ⟨hcommit.temp, hcommit.downloads, hcommit.trace, fun e h => nomatch h⟩
          · rw [hcommitted] at hcommit
            exact hover d _ d' hd hcommit
          · rw [hcommitted] at hcommit
            exact hover d _ d' hd hcommit

/-- A temp that is sized up front is there, as long as the artifact. -/
theorem presizeTemp_temp (t : Target) (d : Disk) :
    (presizeTemp t d).temps t.temp =
      some (SparseFile.setLen Cell.hole t.total ((d.temps t.temp).getD [])) := by
  unfold presizeTemp
  rw [createTemp_eq]
  unfold truncateTo
  simp only [Function.update_self, Disk.setTemp_temps_self]

theorem presizeTemp_trace (t : Target) (d : Disk) : (presizeTemp t d).trace = d.trace := by
  unfold presizeTemp
  rw [createTemp_eq]
  unfold truncateTo
  simp only [Function.update_self]
  rfl

/-- What a connection got is written into the temp. -/
theorem segmentReceived_temp {d : Disk} {file : List Cell} (hfile : d.temps t.temp = some file)
    (offset : ℕ) (taken landed : Bytes) :
    (segmentReceived t offset taken landed d).temps t.temp =
      some (SparseFile.writeAt Cell.hole offset (cellsBy t.sourceId landed) file) := by
  unfold segmentReceived writeTemp
  simp only [Disk.note, hfile, Disk.setTemp_temps_self]

theorem segmentReceived_trace (offset : ℕ) (taken landed : Bytes) (d : Disk) :
    (segmentReceived t offset taken landed d).trace =
      d.trace ++ [.delivered t.sourceId offset taken] := by
  unfold segmentReceived writeTemp
  cases (d.note (.delivered t.sourceId offset taken)).temps t.temp <;> rfl

end Atlas
