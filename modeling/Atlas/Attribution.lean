import Atlas.AttemptRule
import Atlas.Partials
import Atlas.Transition

/-!
# Whose bytes are in a partial

Without a chunk tree nothing checks a partial until the file is complete, so
whoever completes it answers for all of it. A partial is therefore resumed only
by the source that wrote it: within a call the loop remembers who that is, and
between calls the downloads row does. The row is refreshed every few megabytes,
at the end of the file and when the user cancels; the file grows with every
chunk.

`Event.Settled` is the condition under which the two agree when an attempt ends:
it wrote nothing, or the row names nobody or the right source, or the attempt
lived to refresh it. In every run of calls, as long as every attempt so far was
settled, a source resumes its own bytes only and is blamed for its own bytes
only (`resumed_or_blamed_own`). An attempt that is not settled leaves the next
call to resume its bytes under another name (`resumed_under_another_name`).
-/

namespace Atlas

open Text Program Transition

/-! ## Settled attempts -/

/-- All of some cells were written by a source, whichever of its attempts did so. -/
def By (sourceId : Text) (cells : List Cell) : Prop :=
  ∀ c ∈ cells, c.writer = some sourceId

instance (sourceId : Text) (cells : List Cell) : Decidable (By sourceId cells) :=
  inferInstanceAs (Decidable (∀ c ∈ cells, c.writer = some sourceId))

theorem By.nil (sourceId : Text) : By sourceId [] := fun _ h => nomatch h

theorem By.append {sourceId : Text} {cells : List Cell} (h : By sourceId cells)
    (data : Bytes) : By sourceId (cells ++ cellsBy sourceId data) := by
  intro c hc
  obtain hc | hc := List.mem_append.mp hc
  · exact h c hc
  · obtain ⟨b, -, rfl⟩ := List.mem_map.mp hc
    rfl

/-- Whether a stream that finds `n` bytes in the partial leaves none there, or
refreshes the downloads row before it ends. -/
def settlesFrom (total : ℕ) : ℕ → List StreamEvent → Bool
  | n, [] => n = 0
  | n, ev :: events =>
    if ev.cancelled then true
    else match ev.item with
      | .error _ => n = 0
      | .ok chunk =>
        if total < n + chunk.length then n = 0
        else match ev.write with
          | .failed landed _ => n + (chunk.take landed).length = 0
          | .died landed => n + (chunk.take landed).length = 0
          | .written =>
            if PROGRESS_BYTES < n + chunk.length ∨ n + chunk.length = total then true
            else settlesFrom total (n + chunk.length) events

/-- An attempt leaves the row and the partial in agreement: the size is unknown,
so that the partial is not resumed; or the row names nobody, or the source
itself; or the row is refreshed, or nothing is left to disagree about. -/
def Event.Settled : Event → Prop
  | .opened sourceId rowOwner kept total opening =>
    total = 0 ∨ rowOwner = none ∨ rowOwner = some sourceId ∨
      settlesFrom total kept.length opening.events = true
  | _ => True

instance : DecidablePred Event.Settled
  | .resumed _ _ => .isTrue trivial
  | .opened sourceId rowOwner kept total opening =>
    inferInstanceAs (Decidable (total = 0 ∨ rowOwner = none ∨ rowOwner = some sourceId ∨
      settlesFrom total kept.length opening.events = true))
  | .delivered _ _ _ => .isTrue trivial
  | .blamed _ _ => .isTrue trivial

/-- What a source resumes is its own, and what it is blamed for is. -/
def Event.Own : Event → Prop
  | .resumed sourceId cells => By sourceId cells
  | .blamed sourceId cells => By sourceId cells
  | _ => True

instance : DecidablePred Event.Own
  | .resumed sourceId cells => inferInstanceAs (Decidable (By sourceId cells))
  | .opened _ _ _ _ _ => .isTrue trivial
  | .delivered _ _ _ => .isTrue trivial
  | .blamed sourceId cells => inferInstanceAs (Decidable (By sourceId cells))

/-- Every attempt so far was settled, so that the downloads row and the partial agree on
whose bytes are there. -/
def AllSettled (trace : List Event) : Prop := ∀ e ∈ trace, e.Settled

instance (trace : List Event) : Decidable (AllSettled trace) :=
  inferInstanceAs (Decidable (∀ e ∈ trace, e.Settled))

/-- What happens after settled attempts is a source's own business; before that it may carry
on with another's bytes. -/
def OwnAfter (trace : List Event) (e : Event) : Prop := AllSettled trace → e.Own

theorem AllSettled.left {l l' : List Event} (h : AllSettled (l ++ l')) : AllSettled l :=
  fun e he => h e (List.mem_append_left l' he)

/-! ## The invariant -/

namespace PartialView

/-- The partial is one that an attempt resumes: it has bytes, and fewer than the whole. -/
def Resumable (total : ℕ) (v : PartialView) : Prop :=
  0 < v.cells.length ∧ v.cells.length < total

/-- Between calls: a partial that will be resumed is of the writer its row
names, if it names one. -/
structure Attributed (total : ℕ) (v : PartialView) : Prop where
  trace : Throughout OwnAfter v.trace
  row : AllSettled v.trace → v.Resumable total →
    v.owner = none ∨ ∃ o, v.owner = some o ∧ By o v.cells

/-- Within a call: it is of the writer the loop remembers. -/
structure AttributedTo (total : ℕ) (writer : Option Text) (v : PartialView) : Prop
    extends Attributed total v where
  writer : AllSettled v.trace → v.Resumable total → ∃ o, writer = some o ∧ By o v.cells

variable {total : ℕ} {v : PartialView}

/-- A partial that is not resumed is nobody's. -/
theorem Attributed.attributedTo (h : v.Attributed total) (writer : Option Text)
    (hnot : ¬ v.Resumable total) : v.AttributedTo total writer :=
  ⟨h, fun _ hres => absurd hres hnot⟩

theorem attributed_of_not_resumable (htrace : Throughout OwnAfter v.trace)
    (hnot : ¬ v.Resumable total) : v.Attributed total :=
  ⟨htrace, fun _ hres => absurd hres hnot⟩

theorem not_resumable_of_cells (h : v.cells = []) : ¬ v.Resumable total := by
  rintro ⟨hpos, -⟩
  rw [h] at hpos
  exact Nat.lt_irrefl 0 hpos

/-- Cutting the partial to nothing leaves nothing to attribute. -/
theorem Attributed.cut (h : v.Attributed total) (writer : Option Text) :
    v.cut.AttributedTo total writer :=
  (attributed_of_not_resumable (v := v.cut) h.trace
    (not_resumable_of_cells v.cut_cells)).attributedTo _ (not_resumable_of_cells v.cut_cells)

/-- If the loop takes the source for the writer, the row names nobody else. -/
theorem AttributedTo.owner {sourceId : Text} (h : v.AttributedTo total (some sourceId))
    (hs : AllSettled v.trace) (hres : v.Resumable total) :
    v.owner = none ∨ v.owner = some sourceId := by
  obtain howner | ⟨o, howner, hby⟩ := h.row hs hres
  · exact Or.inl howner
  · obtain ⟨s, hs', hby'⟩ := h.writer hs hres
    obtain ⟨c, hc⟩ := List.exists_mem_of_length_pos hres.1
    have hsame : some o = some s := (hby c hc).symm.trans (hby' c hc)
    exact Or.inr (howner.trans (hsame.trans hs'.symm))

/-- After an attempt of a source: the row agrees with the partial, and all of
the partial is the source's. -/
structure LeftBy (total : ℕ) (sourceId : Text) (v : PartialView) : Prop where
  trace : Throughout OwnAfter v.trace
  cells : AllSettled v.trace → By sourceId v.cells
  row : AllSettled v.trace → v.Resumable total →
    v.owner = none ∨ v.owner = some sourceId

theorem LeftBy.attributedTo {sourceId : Text} (h : v.LeftBy total sourceId) :
    v.AttributedTo total (some sourceId) where
  trace := h.trace
  row hs hres := (h.row hs hres).imp id fun howner => ⟨sourceId, howner, h.cells hs⟩
  writer hs _ := ⟨sourceId, rfl, h.cells hs⟩

/-- A source that is blamed is blamed for its own bytes. -/
theorem LeftBy.blamed {sourceId : Text} (h : v.LeftBy total sourceId) :
    (v.blamed sourceId).AttributedTo total (some sourceId) := by
  have htrace : Throughout OwnAfter (v.blamed sourceId).trace :=
    h.trace.append_singleton h.cells
  have hcells : (v.blamed sourceId).cells = [] := rfl
  exact (attributed_of_not_resumable htrace (not_resumable_of_cells hcells)).attributedTo _
    (not_resumable_of_cells hcells)

end PartialView

/-! ## One attempt -/

section Attempt

variable {D : Digests} {slot : Slot} {source : Source}

/-- The declared size of a slot's artifact, 0 when it is unknown. -/
def Slot.total (slot : Slot) : ℕ := slot.artifact.sizeBytes

/-- What an attempt resumes is what can be resumed. -/
theorem resumable_own {d : Disk}
    (h : (slot.view d).AttributedTo slot.total (some source.sourceId))
    (hs : AllSettled d.trace) : By source.sourceId (resumable (slot.target source) d) := by
  unfold resumable
  dsimp only
  split
  · rename_i hres
    obtain ⟨o, ho, hby⟩ := h.writer hs hres
    cases ho
    exact hby
  · exact By.nil _

theorem resumable_of_pos {d : Disk} (h : 0 < (resumable (slot.target source) d).length) :
    (slot.view d).Resumable slot.total := by
  unfold resumable at h
  dsimp only at h
  split at h
  · assumption
  · exact absurd h (Nat.lt_irrefl 0)

/-- The note of what is resumed. -/
theorem resumedNote_own {d : Disk}
    (h : (slot.view d).AttributedTo slot.total (some source.sourceId)) :
    Throughout OwnAfter (d.trace ++ resumedNote (slot.target source) d) := by
  unfold resumedNote
  split
  · rw [List.append_nil]
    exact h.trace
  · exact Throughout.append_singleton h.trace fun hs => resumable_own h hs

/-- The loop invariant of an attempt: what is in the temp is the source's, and
the row agrees with it or is still to be refreshed. -/
structure OwnLoop (slot : Slot) (source : Source) (events : List StreamEvent)
    (st : StreamState) (file : List Cell) (d : Disk) : Prop where
  trace : Throughout OwnAfter d.trace
  cells : AllSettled d.trace → By source.sourceId file
  row : AllSettled d.trace → slot.total = 0 ∨ (slot.view d).owner = none ∨
    (slot.view d).owner = some source.sourceId ∨
    st.lastEmit = 0 ∧ settlesFrom slot.total st.bytesDone events = true

/-- An attempt ends with the row and the partial in agreement, if the row names
nobody or the source, or the partial is empty or of unknown size. -/
theorem leftBy_of (file : List Cell) {d : Disk} (htrace : Throughout OwnAfter d.trace)
    (htemp : d.temps slot.temp = some file)
    (hcells : AllSettled d.trace → By source.sourceId file)
    (hrow : AllSettled d.trace → slot.total = 0 ∨ (slot.view d).owner = none ∨
      (slot.view d).owner = some source.sourceId ∨ file.length = 0) :
    (slot.view d).LeftBy slot.total source.sourceId := by
  have hfile : (slot.view d).cells = file := by
    show (d.temps slot.temp).getD [] = file
    rw [htemp]
    rfl
  refine ⟨htrace, fun hs => hfile ▸ hcells hs, fun hs hres => ?_⟩
  obtain ⟨hpos, hlt⟩ := hres
  rw [hfile] at hpos hlt
  obtain h | h | h | h := hrow hs
  · omega
  · exact Or.inl h
  · exact Or.inr h
  · omega

/-- A refreshed row names the source, if there is a row. -/
theorem owner_refreshDownload (slot : Slot) (bytesDone : ℕ) (sourceId : Text) (d : Disk) :
    (slot.view (refreshDownload slot.downloadId bytesDone sourceId d)).owner = none ∨
      (slot.view (refreshDownload slot.downloadId bytesDone sourceId d)).owner =
        some sourceId := by
  have hrow := Db.owner_updateDownloadProgress slot.downloadId bytesDone (some sourceId)
    d.downloads
  cases hfind : Db.getDownload slot.downloadId d.downloads with
  | none =>
    rw [hfind] at hrow
    exact Or.inl hrow
  | some row =>
    rw [hfind] at hrow
    exact Or.inr hrow

/-- A note of what was delivered is nobody's business. -/
theorem ownAfter_delivered {trace : List Event} (h : Throughout OwnAfter trace)
    (sourceId : Text) (offset : ℕ) (data : Bytes) :
    Throughout OwnAfter (trace ++ [.delivered sourceId offset data]) :=
  h.append_singleton fun _ => trivial

/-- **One turn of the loop** leaves the row and the partial in agreement, or
still to be refreshed. -/
theorem ownLoop_step (hnone : slot.chunkTree = none) {ceiling : Option ℕ}
    (hceiling : ceiling.isSome → slot.total = 0) {ev : StreamEvent}
    {events : List StreamEvent} {st : StreamState} {file : List Cell} {d d' : Disk}
    {r : Exit Error StreamState} (hH : OwnLoop slot source (ev :: events) st file d)
    (hin : InStep D (slot.target source) file st d)
    (hspec : StepSpec D (slot.target source) ceiling st ev file d (r, d')) :
    match r with
    | .ok st' => ∀ file', d'.temps slot.temp = some file' →
      OwnLoop slot source events st' file' d'
    | _ => (slot.view d').LeftBy slot.total source.sourceId := by
  have htotal : (slot.target source).total = slot.total := rfl
  have hrow := hH.row
  rw [← hin.length] at hrow
  cases hspec with
  | cancelled hc =>
    exact leftBy_of file hH.trace hin.temp hH.cells fun _ =>
      Or.inr ((owner_refreshDownload slot st.bytesDone source.sourceId d).imp id Or.inl)
  | interrupted hc hitem =>
    refine leftBy_of file hH.trace hin.temp hH.cells fun hs => (hrow hs).imp id fun h => h.imp id
      fun h => h.imp id fun h => ?_
    simpa [settlesFrom, hc, hitem] using h.2
  | @refused chunk e hc hitem he =>
    have htemp := received_temp (slot.target source) st file chunk [] d
    rw [show cellsBy _ [] = [] from rfl, List.append_nil] at htemp
    refine leftBy_of file (ownAfter_delivered hH.trace _ _ _) htemp
      (fun hs => hH.cells hs.left) fun hs => ?_
    cases he with
    | overlong hover =>
      refine (hrow hs.left).imp id fun h => h.imp id fun h => h.imp id fun h => ?_
      rw [← hin.length] at hover
      simpa [settlesFrom, hc, hitem, ← htotal, hover.2] using h.2
    | noSpace hceil _ => exact Or.inl (hceiling (by rw [hceil]; rfl))
    | leaf hfeed =>
      -- without a chunk tree no chunk is refused for its leaves
      have hleaf := hin.fed.leafCheck_none (by
        show slot.chunkTree.map LeafCheck.new = none
        rw [hnone]
        rfl)
      rw [StreamingVerifier.feed_of_leafCheck_none hleaf] at hfeed
      cases hfeed
  | @failed chunk n m hc hitem hw hfit =>
    refine leftBy_of _ (ownAfter_delivered hH.trace _ _ _)
      (received_temp (slot.target source) st file chunk (chunk.take n) d)
      (fun hs => (hH.cells hs.left).append _) fun hs => ?_
    by_cases htot : slot.total = 0
    · exact Or.inl htot
    · refine (hrow hs.left).imp id fun h => h.imp id fun h => h.imp id fun h => ?_
      rw [← hin.length, htotal] at hfit
      have hfit' : ¬ slot.total < file.length + chunk.length := by omega
      rw [List.length_append, length_cellsBy]
      simpa [settlesFrom, hc, hitem, hfit', hw] using h.2
  | @died chunk n hc hitem hw hfit =>
    refine leftBy_of _ (ownAfter_delivered hH.trace _ _ _)
      (received_temp (slot.target source) st file chunk (chunk.take n) d)
      (fun hs => (hH.cells hs.left).append _) fun hs => ?_
    by_cases htot : slot.total = 0
    · exact Or.inl htot
    · refine (hrow hs.left).imp id fun h => h.imp id fun h => h.imp id fun h => ?_
      rw [← hin.length, htotal] at hfit
      have hfit' : ¬ slot.total < file.length + chunk.length := by omega
      rw [List.length_append, length_cellsBy]
      simpa [settlesFrom, hc, hitem, hfit', hw] using h.2
  | @written chunk v hc hitem hw hfit hspace hfeed hq =>
    intro file' hfile'
    have hfile : file ++ cellsBy source.sourceId chunk = file' :=
      Option.some.inj
        ((received_temp (slot.target source) st file chunk chunk d).symm.trans hfile')
    rw [← hfile]
    refine ⟨ownAfter_delivered hH.trace _ _ _, fun hs => (hH.cells hs.left).append _,
      fun hs => ?_⟩
    by_cases htot : slot.total = 0
    · exact Or.inl htot
    · refine (hH.row hs.left).imp id fun h => h.imp id fun h => h.imp id fun h => ?_
      rw [htotal] at hfit
      have hfit' : ¬ slot.total < st.bytesDone + chunk.length := by omega
      have hbig : ¬ (PROGRESS_BYTES < st.bytesDone + chunk.length ∨
          st.bytesDone + chunk.length = slot.total) := by
        unfold refreshes at hq
        rwa [h.1, Nat.sub_zero] at hq
      exact ⟨h.1, by simpa [settlesFrom, hc, hitem, hfit', hw, hbig] using h.2⟩
  | @refreshed chunk v hc hitem hw hfit hspace hfeed hq =>
    intro file' hfile'
    have hfile : file ++ cellsBy source.sourceId chunk = file' :=
      Option.some.inj
        ((received_temp (slot.target source) st file chunk chunk d).symm.trans hfile')
    rw [← hfile]
    exact ⟨ownAfter_delivered hH.trace _ _ _, fun hs => (hH.cells hs.left).append _,
      fun _ => Or.inr ((owner_refreshDownload slot _ source.sourceId _).imp id Or.inl)⟩

/-- An attempt whose events are over has the row and the partial in agreement. -/
theorem OwnLoop.leftBy {st : StreamState} {file : List Cell} {d : Disk}
    (hH : OwnLoop slot source [] st file d) (hin : InStep D (slot.target source) file st d) :
    (slot.view d).LeftBy slot.total source.sourceId := by
  refine leftBy_of file hH.trace hin.temp hH.cells fun hs => ?_
  refine (hH.row hs).imp id fun h => h.imp id fun h => h.imp id fun h => ?_
  rw [hin.length]
  exact of_decide_eq_true h.2

/-- What is handed over is gone, or left as it was. -/
theorem LeftBy.handedOver {d d' : Disk} {r : Exit Error BlobMeta}
    (h : (slot.view d).LeftBy slot.total source.sourceId)
    (hover : HandedOver (slot.target source) d r d') :
    (slot.view d').LeftBy slot.total source.sourceId := by
  obtain ⟨htrace, hcells, hrow⟩ := h
  have htrace' : (slot.view d').trace = (slot.view d).trace := hover.trace
  have howner : (slot.view d').owner = (slot.view d).owner := by
    unfold Slot.view
    rw [hover.downloads]
  have hfile : (slot.view d').cells = [] ∨ (slot.view d').cells = (slot.view d).cells :=
    hover.temp.imp (fun h => congrArg (·.getD []) h) (fun h => congrArg (·.getD []) h)
  refine ⟨htrace' ▸ htrace, fun hs => ?_, fun hs hres => ?_⟩
  · rw [htrace'] at hs
    obtain h | h := hfile
    · rw [h]
      exact By.nil _
    · rw [h]
      exact hcells hs
  · rw [htrace'] at hs
    rw [howner]
    obtain h | h := hfile
    · exact absurd hres (PartialView.not_resumable_of_cells h)
    · refine hrow hs ?_
      unfold PartialView.Resumable at hres ⊢
      rwa [h] at hres

/-- **One attempt** at a source leaves a partial of that source, and a row that agrees. -/
theorem streamOnce_leftBy (hnone : slot.chunkTree = none) (attempt : Attempt) :
    Triple (fun d => (slot.view d).AttributedTo slot.total (some source.sourceId))
      (streamOnce D (slot.target source) attempt)
      (fun _ d => (slot.view d).LeftBy slot.total source.sourceId) := by
  refine streamOnce_rule (H := fun _ _ events st file d => OwnLoop slot source events st file d)
    ?_ ?_ ?_ ?_ ?_ ?_
  · intro d e file hP hblames hfile
    have hview : (slot.view { d with
        temps := Function.update d.temps (slot.target source).temp file
        trace := d.trace ++ resumedNote (slot.target source) d }).cells = file.getD [] :=
      congrArg (·.getD []) (Function.update_self slot.temp file d.temps)
    have hcells : file.getD [] = resumable (slot.target source) d ∨ file.getD [] = [] := by
      cases file with
      | none => exact Or.inr rfl
      | some cells => exact hfile cells rfl
    refine ⟨resumedNote_own hP, fun hs => ?_, fun hs hres => ?_⟩
    · show By _ (PartialView.cells (slot.view _))
      rw [hview]
      obtain h | h := hcells
      · rw [h]
        exact resumable_own hP hs.left
      · rw [h]
        exact By.nil _
    · refine hP.owner hs.left ?_
      have hpos : 0 < (file.getD []).length := hview ▸ hres.1
      obtain h | h := hcells
      · rw [h] at hpos
        exact resumable_of_pos hpos
      · rw [h] at hpos
        exact absurd hpos (Nat.lt_irrefl 0)
  · intro d opening kept v hP hkept
    have htrace := resumedNote_own hP
    refine ⟨htrace.append_singleton fun _ => trivial, fun hs => ?_, fun hs => ?_⟩
    · obtain rfl | rfl := hkept
      · exact resumable_own hP hs.left.left
      · exact By.nil _
    · have hsettled := hs _ (List.mem_append_right _ List.mem_cons_self)
      exact hsettled.imp id fun h => h.imp id fun h => h.imp id fun h => ⟨rfl, h⟩
  · intro opening kept ev evs st file d r d' hH hin hspec
    have hstep := ownLoop_step hnone
      (fun hsome => total_eq_zero_of_ceiling (t := slot.target source) hsome) hH hin hspec
    cases r <;> exact hstep
  · exact fun _ _ st file d hH hin _ => hH.leftBy hin
  · exact fun _ _ st file d e hH hin _ _ => hH.leftBy hin
  · exact fun _ _ st file d r d' hH hin hover => LeftBy.handedOver (hH.leftBy hin) hover

/-- While a file is fetched in segments it has its full length, so that it is
not resumed if the transfer breaks off. -/
structure Sparse (slot : Slot) (d : Disk) : Prop where
  trace : Throughout OwnAfter d.trace
  full : ∃ file, d.temps slot.temp = some file ∧ file.length = slot.total

theorem Sparse.attributedTo {d : Disk} (h : Sparse slot d) (writer : Option Text) :
    (slot.view d).AttributedTo slot.total writer := by
  obtain ⟨file, hfile, hlen⟩ := h.full
  have hcells : (slot.view d).cells = file := congrArg (·.getD []) hfile
  have hnot : ¬ (slot.view d).Resumable slot.total := by
    rintro ⟨-, hlt⟩
    rw [hcells, hlen] at hlt
    exact Nat.lt_irrefl _ hlt
  exact (PartialView.attributed_of_not_resumable h.trace hnot).attributedTo _ hnot

theorem attributedTo_of_nil {d : Disk} (htrace : Throughout OwnAfter d.trace)
    (hcells : (slot.view d).cells = []) (writer : Option Text) :
    (slot.view d).AttributedTo slot.total writer :=
  (PartialView.attributed_of_not_resumable htrace
    (PartialView.not_resumable_of_cells hcells)).attributedTo _
    (PartialView.not_resumable_of_cells hcells)

theorem Sparse.segment {d d' : Disk} (h : Sparse slot d)
    (hspec : SegmentSpec (slot.target source) d d') : Sparse slot d' := by
  obtain ⟨file, hfile, hlen⟩ := h.full
  have hreceived : ∀ {offset taken landed}, landed <+: taken →
      offset + taken.length ≤ slot.total →
      Sparse slot (segmentReceived (slot.target source) offset taken landed d) := by
    intro offset taken landed hlanded hfit
    refine ⟨?_, _, segmentReceived_temp hfile offset taken landed, ?_⟩
    · rw [segmentReceived_trace]
      exact ownAfter_delivered h.trace _ _ _
    · have hle := hlanded.length_le
      rw [SparseFile.length_writeAt _ (by rw [length_cellsBy]; omega), hlen]
  cases hspec with
  | kept => exact h
  | wrote hlanded hfit => exact hreceived hlanded hfit
  | refreshed hfit =>
    have hsparse := hreceived List.prefix_rfl hfit
    exact ⟨hsparse.trace, hsparse.full⟩

/-- A segmented transfer leaves nothing that is resumed. -/
theorem streamSegmented_attributedTo (connections : ℕ) (run : SegmentedRun) :
    Triple (fun d => (slot.view d).AttributedTo slot.total (some source.sourceId))
      (streamSegmented D (slot.target source) connections run)
      (fun _ d => (slot.view d).AttributedTo slot.total (some source.sourceId)) := by
  refine streamSegmented_rule (W := Sparse slot) (fun _ => id) (fun d hd => ?_)
    (fun d d' hd => hd.segment) (fun d hd => ?_) (fun d r d' hd hover => ?_)
    fun d hd => hd.attributedTo _
  · refine ⟨?_, _, presizeTemp_temp (slot.target source) d, SparseFile.length_setLen _ _ _⟩
    rw [presizeTemp_trace]
    exact hd.trace
  · refine attributedTo_of_nil ?_ ?_ _
    · show Throughout OwnAfter (truncateTo slot.temp 0 d).trace
      rw [truncateTo_zero]
      exact hd.trace
    · show (slot.view (truncateTo slot.temp 0 d)).cells = []
      rw [slot.view_truncate, PartialView.cut_cells]
  · obtain h | h := hover.temp
    · exact attributedTo_of_nil (hover.trace ▸ hd.trace) (congrArg (·.getD []) h) _
    · obtain ⟨file, hfile, hlen⟩ := hd.full
      have hsparse : Sparse slot d' := ⟨hover.trace ▸ hd.trace, file, h.trans hfile, hlen⟩
      exact hsparse.attributedTo _

end Attempt

/-! ## Calls -/

/-- **Without a chunk tree a partial stays attributed** to whom its row names. -/
def attribution (D : Digests) {slot : Slot} (hnone : slot.chunkTree = none) :
    PartialInvariant D slot where
  turn s := PartialView.AttributedTo slot.total (some s)
  between p := PartialView.AttributedTo slot.total p
  rest := PartialView.Attributed slot.total
  streamOnce _ attempt := (streamOnce_leftBy hnone attempt).post
    fun _ _ h => ⟨h.attributedTo, fun _ _ _ => h.blamed⟩
  streamSegmented _ connections run := streamSegmented_attributedTo connections run
  cut _ _ h := h.toAttributed.cut _
  enter s p v h hown := by
    refine ⟨h.toAttributed, fun hs hres => ?_⟩
    obtain ⟨o, ho, hby⟩ := h.writer hs hres
    obtain htree | hsame := hown
    · rw [hnone] at htree
      cases htree
    · exact ⟨s, rfl, hsame o ho ▸ hby⟩
  enter_cut _ _ _ h := h.toAttributed.cut _
  leave s v h := by
    by_cases hpos : 0 < v.cells.length
    · rw [if_pos hpos]
      exact h
    · exact h.toAttributed.attributedTo _ fun hres => hpos hres.1
  done _ _ h := h.toAttributed
  stop _ _ h := h.toAttributed
  discard v h := PartialView.attributed_of_not_resumable (v := v.discarded) h.trace
    (PartialView.not_resumable_of_cells rfl)
  start v h _ _ := by
    refine ⟨fun o ho => ⟨h, fun hs hres => ?_⟩, h.cut _⟩
    obtain hnobody | howner := h.row hs hres
    · rw [ho] at hnobody
      cases hnobody
    · rw [ho] at howner
      exact howner
  start_clean v h hclean := by
    refine h.attributedTo _ (PartialView.not_resumable_of_cells ?_)
    obtain htree | hfile := hclean
    · rw [hnone] at htree
      cases htree
    · unfold PartialView.cells
      rw [hfile]
      rfl

/-- A call of `download_artifact` for one artifact of one manifest: how often a
source is tried, and everything the call meets. -/
abbrev Call : Type := ℕ × DownloadRun

/-- The store a call of `download_artifact` leaves, however it ends; a call that fails or
crashes has moved the disk too. -/
def callStep (D : Digests) (manifestId : Text) (artifact : Artifact) (d : Disk)
    (call : Call) : Disk :=
  (downloadArtifact D call.1 manifestId artifact call.2 d).2

/-- A call finds this chunk tree, or none, unless it finds the artifact itself. -/
def FindsTree (D : Digests) (artifact : Artifact) (chunkTree : Option ChunkTree) (d : Disk)
    (_ : Call) : Prop :=
  cachedBlake3 d.cache artifact = none → cachedChunkTree D d.cache artifact = chunkTree

/-- What holds between calls holds after any number of them. -/
theorem PartialInvariant.calls {D : Digests} {manifestId : Text} {artifact : Artifact}
    {chunkTree : Option ChunkTree}
    (inv : PartialInvariant D (slotOf D manifestId artifact chunkTree)) {calls : List Call}
    {d : Disk} (hd : inv.rest ((slotOf D manifestId artifact chunkTree).view d))
    (hcalls : Along (callStep D manifestId artifact) (FindsTree D artifact chunkTree) calls d) :
    inv.rest ((slotOf D manifestId artifact chunkTree).view
      (calls.foldl (callStep D manifestId artifact) d)) :=
  hcalls.invariant
    (I := fun d => inv.rest ((slotOf D manifestId artifact chunkTree).view d))
    (fun _ call hrest htree => inv.downloadArtifact rfl call.1 call.2 htree hrest) hd

/-- **Each source is resumed and blamed on its own bytes.** From a store
without a partial of an artifact, make any calls that find no chunk tree: if
all attempts were settled so far, whatever a source resumes, and whatever is in
the partial when it is blamed for it, was delivered by that source, every byte. -/
theorem resumed_or_blamed_own {D : Digests} {manifestId : Text} {artifact : Artifact}
    {d : Disk} (htemp : d.temps (slotOf D manifestId artifact none).temp = none)
    (htrace : d.trace = []) {calls : List Call}
    (hcalls : Along (callStep D manifestId artifact) (FindsTree D artifact none) calls d)
    {i : ℕ} {e : Event}
    (he : (calls.foldl (callStep D manifestId artifact) d).trace[i]? = some e)
    (hsettled : AllSettled
      ((calls.foldl (callStep D manifestId artifact) d).trace.take i)) : e.Own := by
  have hstart : PartialView.Attributed (slotOf D manifestId artifact none).total
      ((slotOf D manifestId artifact none).view d) := by
    refine PartialView.attributed_of_not_resumable ?_ (PartialView.not_resumable_of_cells ?_)
    · show Throughout OwnAfter d.trace
      rw [htrace]
      exact Throughout.nil _
    · exact congrArg (·.getD []) htemp
  have hend := (@attribution D (slotOf D manifestId artifact none) rfl).calls hstart hcalls
  exact hend.trace i e he hsettled

/-! ## A partial under another name -/

/-- The digests of `abc`, of what is mistaken for it, and of a download's name. -/
def strayDigests : Digests where
  blake3 := tabulated [
    (abc, ofNumber 32 0x6437b3ac38465133ffb63b75273a8db548c558465d79db03fd359c6cd5bd9d85),
    (0x78 :: abc.tail,
      ofNumber 32 0xd022b17a333a24419d9ed649c784b2ac072b0a098d3d154049e50071af735a58),
    (utf8 "m::model.bin".toList,
      ofNumber 32 0xaa4c12899273ec16aec537ddea76a772292914339848cbc1306083f8fd67829f)]
  sha256 := tabulated [
    (abc, ofNumber 32 0xba7816bf8f01cfea414140de5dae2223b00361a396177a9cb410ff61f20015ad),
    (0x78 :: abc.tail,
      ofNumber 32 0x11f995635483d63d73611c514dba734e51e45a04ab45b7f29cbb1ee03127748f)]
  sha1 := tabulated []

/-- The file `abc`, declared by its BLAKE3 and without a chunk tree, so that a partial is
trusted by its row alone. -/
def abcArtifact : Artifact where
  path := "model.bin".toList
  sizeBytes := 3
  hashes := ⟨(hashBytes strayDigests abc).blake3, [], []⟩
  chunking := none
  sources := []

/-- A first mirror of the file, whose bytes are the ones resumed later. -/
def mirrorA : Source := .httpsMirror "https://a.example/model.bin".toList .none

/-- A second mirror of the same file, with an id of its own. -/
def mirrorB : Source := .httpsMirror "https://b.example/model.bin".toList .none

/-- A chunk arrives and is written in full, with nobody pausing the download. -/
def arrives (data : Bytes) : StreamEvent := ⟨false, .ok data, .written⟩

/-- The user presses Pause: the next poll finds the flag set, and nothing is written. -/
def pauses : StreamEvent := ⟨true, .ok [], .written⟩

/-- The connection breaks with an error the code retries; what was written stays in the partial. -/
def breaks : StreamEvent := ⟨false, .error ⟨.other "connection reset".toList, rfl⟩, .written⟩

/-- A call that tries one source once, over one connection, and is not paused. -/
def callFrom (source : Source) (events : List StreamEvent) : Call :=
  (1, {
    cancelled := false
    discard := false
    plan := [{
      source := source
      cancelled := false
      now := 0
      run := {
        preflight := .ok ()
        connections := 1
        rateLimited := false
        cancelled := false
        segmented := ⟨[], false, fun _ => false, 0⟩
        attempts := fun _ => ⟨fun _ => false, .ok ⟨true, none, events, .endOfStream⟩, 0⟩ } }]
    excluded := []
    buildsTree := true })

/-- The store after some calls in order, from an empty disk. -/
def afterCalls (calls : List Call) : Disk :=
  calls.foldl (callStep strayDigests "m".toList abcArtifact) Disk.empty

/-- The first mirror is paused after one byte; the second delivers a wrong byte
and breaks off; the first is tried again. -/
def strayCalls : List Call :=
  [callFrom mirrorA [arrives [0x61], pauses], callFrom mirrorB [arrives [0x78], breaks],
    callFrom mirrorA [arrives [0x62, 0x63]]]

theorem findsTree_abcArtifact (calls : List Call) (d : Disk) :
    Along (callStep strayDigests "m".toList abcArtifact)
      (FindsTree strayDigests abcArtifact none) calls d := by
  induction calls generalizing d with
  | nil => trivial
  | cons call calls ih => exact ⟨fun _ => rfl, ih _⟩

/-- **A source is resumed and banned on another's bytes.** The row still names
the first mirror when the partial is the second's, so the first resumes it, and
is banned for the wrong byte. -/
theorem resumed_under_another_name :
    (¬ ∀ e ∈ (afterCalls strayCalls).trace, e.Own) ∧
      (Db.getSourceHealth mirrorA.sourceId (afterCalls strayCalls).sourceHealth).banned = true ∧
      (Db.getSourceHealth mirrorB.sourceId (afterCalls strayCalls).sourceHealth).banned =
        false := by
  decide +kernel

/-- A mirror that was paused resumes its own byte. -/
theorem resumed_own_after_pause :
    ∃ h : 2 < (afterCalls [callFrom mirrorA [arrives [0x61], pauses],
        callFrom mirrorA [arrives [0x62, 0x63]]]).trace.length,
      (afterCalls [callFrom mirrorA [arrives [0x61], pauses],
        callFrom mirrorA [arrives [0x62, 0x63]]]).trace[2].Own := by
  refine ⟨by decide +kernel, ?_⟩
  exact resumed_or_blamed_own rfl rfl (findsTree_abcArtifact _ _)
    (List.getElem?_eq_getElem _) (by decide +kernel)

end Atlas
