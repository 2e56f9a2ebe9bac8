import Atlas.Attribution
import Atlas.Records
import Atlas.WrongLeaf

/-!
# Who is blamed for a leaf

With a chunk tree every leaf of a file is verified when its last byte arrives,
so a partial is kept when another source takes over: what was verified is true,
whoever wrote it. What follows the last full leaf was not verified. The source
that completes that leaf is blamed if it does not verify, whoever wrote its
beginning.

`Event.Fair` is the condition under which a source answers for its own bytes
only: when its stream is opened, the bytes of the unfinished leaf it continues
are true or its own; and where the declared size is unknown, nothing but the
bytes can fail. In every run of calls whose openings were all fair, a source has
an integrity failure on record, or a file in quarantine, only if it delivered a
wrong byte itself (`blamed_delivered_wrong`). Without that condition an honest
source is banned (`honest_blamed_for_leaf`).
-/

namespace Atlas

open Text Program Transition

/-! ## Who delivered what -/

/-- A source's stream yielded this byte for this offset: some delivery to the source's
stream covers the offset, with this byte at its place. -/
def Delivered (trace : List Event) (sourceId : Text) (o : ℕ) (b : UInt8) : Prop :=
  ∃ off data, .delivered sourceId off data ∈ trace ∧ off ≤ o ∧ data[o - off]? = some b

/-- What a source's stream yielded has a byte that is not the content's. -/
def Event.Wrong (T : Bytes) (sourceId : Text) : Event → Prop
  | .delivered sourceId' off data =>
    sourceId' = sourceId ∧ ∃ j, j < data.length ∧ T[off + j]? ≠ data[j]?
  | _ => False

instance (T : Bytes) (sourceId : Text) : DecidablePred (Event.Wrong T sourceId)
  | .resumed _ _ => .isFalse id
  | .opened _ _ _ _ _ => .isFalse id
  | .delivered sourceId' off data =>
    inferInstanceAs (Decidable (sourceId' = sourceId ∧
      ∃ j, j < data.length ∧ T[off + j]? ≠ data[j]?))
  | .blamed _ _ => .isFalse id

/-- A source delivered a wrong byte: one of the events it caused has a byte that the true
content has not. -/
def WrongBy (T : Bytes) (sourceId : Text) (trace : List Event) : Prop :=
  ∃ e ∈ trace, e.Wrong T sourceId

instance (T : Bytes) (sourceId : Text) (trace : List Event) :
    Decidable (WrongBy T sourceId trace) :=
  inferInstanceAs (Decidable (∃ e ∈ trace, e.Wrong T sourceId))

theorem Delivered.wrongBy {T : Bytes} {trace : List Event} {sourceId : Text} {o : ℕ}
    {b : UInt8} (h : Delivered trace sourceId o b) (hne : T[o]? ≠ some b) :
    WrongBy T sourceId trace := by
  obtain ⟨off, data, hmem, hle, hget⟩ := h
  have hlt : o - off < data.length := (List.getElem?_eq_some_iff.mp hget).1
  refine ⟨_, hmem, rfl, o - off, hlt, ?_⟩
  rwa [Nat.add_sub_of_le hle, hget]

theorem Delivered.append {trace : List Event} {sourceId : Text} {o : ℕ} {b : UInt8}
    (h : Delivered trace sourceId o b) (more : List Event) :
    Delivered (trace ++ more) sourceId o b := by
  obtain ⟨off, data, hmem, hrest⟩ := h
  exact ⟨off, data, List.mem_append_left more hmem, hrest⟩

/-- What was delivered last. -/
theorem Delivered.last {trace : List Event} {sourceId : Text} {off o : ℕ} {data : Bytes}
    {b : UInt8} (hle : off ≤ o) (hget : data[o - off]? = some b) :
    Delivered (trace ++ [.delivered sourceId off data]) sourceId o b :=
  ⟨off, data, List.mem_append_right _ List.mem_cons_self, hle, hget⟩

/-- Whoever is named as the writer of a byte delivered it there. -/
def Tracked (trace : List Event) (cells : List Cell) : Prop :=
  ∀ o c sourceId, cells[o]? = some c → c.writer = some sourceId →
    Delivered trace sourceId o c.byte

namespace Tracked

variable {trace : List Event} {cells : List Cell} {sourceId : Text}

theorem nil (trace : List Event) : Tracked trace [] := by
  intro o c s hc
  rw [List.getElem?_nil] at hc
  cases hc

theorem append (h : Tracked trace cells) (more : List Event) :
    Tracked (trace ++ more) cells :=
  fun o c s hc hs => (h o c s hc hs).append more

/-- A byte a source writes is one it delivered. -/
theorem cellsBy {o i : ℕ} {c : Cell} {s : Text} {taken landed : Bytes}
    (hlanded : landed <+: taken) (hc : (cellsBy sourceId landed)[i]? = some c)
    (hs : c.writer = some s) (ho : i ≤ o) :
    Delivered (trace ++ [.delivered sourceId (o - i) taken]) s o c.byte := by
  unfold Atlas.cellsBy at hc
  rw [List.getElem?_map, Option.map_eq_some_iff] at hc
  obtain ⟨b, hb, rfl⟩ := hc
  cases hs
  refine Delivered.last (Nat.sub_le o i) ?_
  rw [Nat.sub_sub_self ho]
  obtain ⟨hi, hget⟩ := List.getElem?_eq_some_iff.mp hb
  rw [List.prefix_iff_getElem?.mp hlanded i hi, hget]

/-- A hole was written by nobody. -/
theorem setLen (h : Tracked trace cells) (len : ℕ) :
    Tracked trace (SparseFile.setLen Cell.hole len cells) := by
  intro o c s hc hs
  obtain hkept | rfl := SparseFile.getElem?_setLen hc
  · exact h o c s hkept hs
  · cases hs

/-- **What a source writes is tracked**, wherever it writes it. -/
theorem writeAt (h : Tracked trace cells) {taken landed : Bytes}
    (hlanded : landed <+: taken) (off : ℕ) :
    Tracked (trace ++ [.delivered sourceId off taken])
      (SparseFile.writeAt Cell.hole off (Atlas.cellsBy sourceId landed) cells) := by
  intro o c s hc hs
  obtain hkept | rfl | ⟨hle, hnew⟩ := SparseFile.getElem?_writeAt hc
  · exact (h o c s hkept hs).append _
  · cases hs
  · have hlast : Delivered (trace ++ [.delivered sourceId (o - (o - off)) taken]) s o c.byte :=
      cellsBy hlanded hnew hs (Nat.sub_le o off)
    rwa [Nat.sub_sub_self hle] at hlast

/-- What a source appends is tracked. -/
theorem received (h : Tracked trace cells) {taken landed : Bytes}
    (hlanded : landed <+: taken) :
    Tracked (trace ++ [.delivered sourceId cells.length taken])
      (cells ++ Atlas.cellsBy sourceId landed) := by
  have hwritten : Tracked (trace ++ [.delivered sourceId cells.length taken])
      (SparseFile.writeAt Cell.hole cells.length (Atlas.cellsBy sourceId landed) cells) :=
    h.writeAt hlanded cells.length
  rwa [SparseFile.writeAt_length_self] at hwritten

end Tracked

/-! ## Fair openings -/

/-- A turn that delivers and writes a chunk: nobody cancelled, the stream brought bytes, and
the disk took them. -/
def StreamEvent.Whole (ev : StreamEvent) : Prop :=
  ev.cancelled = false ∧ ev.item.isOk = true ∧ ev.write = .written

instance : DecidablePred StreamEvent.Whole := fun ev =>
  inferInstanceAs (Decidable (ev.cancelled = false ∧ ev.item.isOk = true ∧
    ev.write = .written))

/-- How many bytes the turns of a stream bring; a turn that ends in an error brings nothing.
-/
def incoming (events : List StreamEvent) : ℕ :=
  (events.map fun ev => match ev.item with
    | .ok chunk => chunk.length
    | .error _ => 0).sum

/-- A stream ends of itself and everything it brought was written: no cap and no
cancellation cut it short, and no chunk was written in part only. -/
def Opening.RunsOut (o : Opening) : Prop :=
  o.ending = .endOfStream ∧ ∀ ev ∈ o.events, ev.Whole

instance : DecidablePred Opening.RunsOut := fun o =>
  inferInstanceAs (Decidable (o.ending = .endOfStream ∧ ∀ ev ∈ o.events, ev.Whole))

/-- A source answers for its own bytes only: what it continues of an unfinished
leaf is true or its own; and where the size is unknown there is room for the
content, no git OID to check it by, and no stream that ends early as if it were complete. -/
def Event.Fair (artifact : Artifact) (T : Bytes) (leafSize : ℕ) : Event → Prop
  | .opened sourceId _ kept total opening =>
    (∀ p ∈ kept.zipIdx, kept.length / leafSize * leafSize ≤ p.2 →
      T[p.2]? = some p.1.byte ∨ p.1.writer = some sourceId) ∧
    (total = 0 → artifact.hashes.hasGitBlobSha1 = false ∧
      (∀ avail ∈ opening.availableSpace, T.length ≤ avail - UNKNOWN_SIZE_DISK_MARGIN) ∧
      (opening.RunsOut → T.length ≤ incoming opening.events))
  | _ => True

instance (artifact : Artifact) (T : Bytes) (leafSize : ℕ) :
    DecidablePred (Event.Fair artifact T leafSize)
  | .resumed _ _ => .isTrue trivial
  | .opened sourceId _ kept total opening =>
    inferInstanceAs (Decidable ((∀ p ∈ kept.zipIdx, kept.length / leafSize * leafSize ≤ p.2 →
      T[p.2]? = some p.1.byte ∨ p.1.writer = some sourceId) ∧
    (total = 0 → artifact.hashes.hasGitBlobSha1 = false ∧
      (∀ avail ∈ opening.availableSpace, T.length ≤ avail - UNKNOWN_SIZE_DISK_MARGIN) ∧
      (opening.RunsOut → T.length ≤ incoming opening.events))))
  | .delivered _ _ _ => .isTrue trivial
  | .blamed _ _ => .isTrue trivial

/-- Every opening so far was fair, so that each source answers for its own bytes only. -/
def AllFair (artifact : Artifact) (T : Bytes) (leafSize : ℕ) (trace : List Event) : Prop :=
  ∀ e ∈ trace, e.Fair artifact T leafSize

instance (artifact : Artifact) (T : Bytes) (leafSize : ℕ) (trace : List Event) :
    Decidable (AllFair artifact T leafSize trace) :=
  inferInstanceAs (Decidable (∀ e ∈ trace, e.Fair artifact T leafSize))

theorem AllFair.left {artifact : Artifact} {T : Bytes} {leafSize : ℕ} {l l' : List Event}
    (h : AllFair artifact T leafSize (l ++ l')) : AllFair artifact T leafSize l :=
  fun e he => h e (List.mem_append_left l' he)

/-- Whoever is blamed after fair openings delivered a wrong byte before: a `blamed` event is
only right if every opening of the trace before was fair to its source. -/
def BlamedRightly (artifact : Artifact) (T : Bytes) (leafSize : ℕ) (trace : List Event) :
    Event → Prop
  | .blamed sourceId _ => AllFair artifact T leafSize trace → WrongBy T sourceId trace
  | _ => True

/-! ## The invariant -/

section Invariant

variable {D : Digests} {slot : Slot} {source : Source} {T : Bytes} {n : ℕ}

/-- Everyone who was blamed was blamed rightly, and it is known who delivered
what is in the partial. -/
structure PartialView.Answered (artifact : Artifact) (T : Bytes) (leafSize : ℕ)
    (v : PartialView) : Prop where
  trace : Throughout (BlamedRightly artifact T leafSize) v.trace
  cells : Tracked v.trace v.cells

/-- A source that delivered a wrong byte may be blamed. -/
theorem PartialView.Answered.blamed {artifact : Artifact} {leafSize : ℕ} {v : PartialView}
    {sourceId : Text} (h : v.Answered artifact T leafSize)
    (hwrong : AllFair artifact T leafSize v.trace → WrongBy T sourceId v.trace) :
    (v.blamed sourceId).Answered artifact T leafSize :=
  ⟨h.trace.append_singleton hwrong, Tracked.nil _⟩

theorem PartialView.Answered.cut {artifact : Artifact} {leafSize : ℕ} {v : PartialView}
    (h : v.Answered artifact T leafSize) : v.cut.Answered artifact T leafSize :=
  ⟨h.trace, by rw [PartialView.cut_cells]; exact Tracked.nil _⟩

/-- What an attempt has in its temp: what it kept of the partial, and after it
what the source delivered. -/
structure Continues (slot : Slot) (source : Source) (opening : Opening) (kept file : List Cell)
    (trace : List Event) : Prop where
  cells : Tracked trace file
  own : ∃ more, file = kept ++ more ∧ By source.sourceId more
  opened : ∃ rowOwner, .opened source.sourceId rowOwner kept slot.total opening ∈ trace

namespace Continues

variable {opening : Opening} {kept file : List Cell} {trace : List Event}

/-- What lands of a chunk is the source's own. -/
theorem received (h : Continues slot source opening kept file trace) {taken landed : Bytes}
    (hlanded : landed <+: taken) :
    Continues slot source opening kept (file ++ cellsBy source.sourceId landed)
      (trace ++ [.delivered source.sourceId file.length taken]) := by
  obtain ⟨more, hfile, hmore⟩ := h.own
  obtain ⟨rowOwner, hopened⟩ := h.opened
  refine ⟨h.cells.received hlanded, ⟨more ++ cellsBy source.sourceId landed, ?_,
    hmore.append landed⟩, rowOwner, List.mem_append_left _ hopened⟩
  rw [hfile, List.append_assoc]

/-- **A wrong byte after the leaves that were kept is the source's own**, if its
opening was fair. -/
theorem wrongBy (h : Continues slot source opening kept file trace) {leafSize o : ℕ}
    (hfair : AllFair slot.artifact T leafSize trace)
    (ho : kept.length / leafSize * leafSize ≤ o) (hwrong : WrongAt T (bytesOf file) o) :
    WrongBy T source.sourceId trace := by
  obtain ⟨x, hx, hne⟩ := hwrong
  unfold bytesOf at hx
  rw [List.getElem?_map, Option.map_eq_some_iff] at hx
  obtain ⟨c, hc, rfl⟩ := hx
  obtain ⟨more, rfl, hmore⟩ := h.own
  obtain ⟨rowOwner, hopened⟩ := h.opened
  have hown : c.writer = some source.sourceId := by
    by_cases hkept : o < kept.length
    · rw [List.getElem?_append_left hkept] at hc
      have hmem : (c, o) ∈ kept.zipIdx := List.mk_mem_zipIdx_iff_getElem?.mpr hc
      exact ((hfair _ hopened).1 _ hmem ho).resolve_left hne
    · rw [List.getElem?_append_right (Nat.le_of_not_lt hkept)] at hc
      exact hmore c (List.mem_of_getElem? hc)
  exact (h.cells o c _ hc hown).wrongBy hne

/-- The leaves that were kept are leaves of the file. -/
theorem kept_le (h : Continues slot source opening kept file trace) (leafSize : ℕ) :
    kept.length / leafSize * leafSize ≤ file.length / leafSize * leafSize := by
  obtain ⟨more, rfl, -⟩ := h.own
  rw [List.length_append]
  exact Nat.mul_le_mul_right _ (Nat.div_le_div_right (Nat.le_add_right _ _))

/-- **A source that delivers more than the content** delivers a wrong byte, if
nothing of the partial is past the content. -/
theorem wrongBy_of_lt (h : Continues slot source opening kept file trace) {leafSize : ℕ}
    (hfair : AllFair slot.artifact T leafSize trace)
    (hkept : kept.length / leafSize * leafSize ≤ T.length) (hlong : T.length < file.length) :
    WrongBy T source.sourceId trace := by
  have hlt : T.length < (bytesOf file).length := by
    rw [bytesOf, List.length_map]
    exact hlong
  refine h.wrongBy hfair hkept ⟨_, List.getElem?_eq_getElem hlt, ?_⟩
  rw [List.getElem?_eq_none (Nat.le_refl _)]
  exact fun hnone => by cases hnone

end Continues

/-- The loop invariant of an attempt: what was appended to what was kept is the
source's own, and all that came so far was written. -/
structure LeafLoop (slot : Slot) (source : Source) (T : Bytes) (leafSize : ℕ)
    (opening : Opening) (kept : List Cell) (events : List StreamEvent) (file : List Cell)
    (d : Disk) : Prop extends Continues slot source opening kept file d.trace where
  trace : Throughout (BlamedRightly slot.artifact T leafSize) d.trace
  whole : ∃ done, opening.events = done ++ events ∧ (∀ ev ∈ done, ev.Whole) ∧
    file.length = kept.length + incoming done
  fits : kept.length < slot.total ∨ kept = []

/-- What was kept is within the content. -/
theorem LeafLoop.kept_le_content {opening : Opening} {kept file : List Cell}
    {events : List StreamEvent} {d : Disk} {leafSize : ℕ}
    (h : LeafLoop slot source T leafSize opening kept events file d)
    (hdesc : slot.artifact.Describes D T) :
    kept.length / leafSize * leafSize ≤ T.length := by
  refine (Nat.div_mul_le_self _ _).trans ?_
  obtain hlt | rfl := h.fits
  · rw [hdesc.size (Nat.ne_zero_of_lt hlt)]
    exact hlt.le
  · exact Nat.zero_le _

/-- A verifier in step with a file has verified its full leaves. -/
theorem leafCheck_inStep (htree : slot.chunkTree = some (ChunkTree.fromFile D T n))
    {file : List Cell} {st : StreamState} {d : Disk}
    (hin : InStep D (slot.target source) file st d) :
    ∃ c, st.verifier.leafCheck = some c ∧ c.tree = ChunkTree.fromFile D T n ∧
      c.Consumed D (bytesOf file) := by
  have hfed := hin.fed
  unfold Target.fresh at hfed
  rw [show (slot.target source).chunkTree = _ from htree] at hfed
  exact hfed.leafConsumed (leafSize_fromFile_pos D T n)

theorem leafIndex_inStep {c : LeafCheck} {file : List Cell}
    (htree : c.tree = ChunkTree.fromFile D T n) (hc : c.Consumed D (bytesOf file)) :
    c.leafIndex * c.tree.leafSize = file.length / (ChunkTree.fromFile D T n).leafSize *
      (ChunkTree.fromFile D T n).leafSize := by
  rw [hc.leafIndex_eq, htree, bytesOf, List.length_map]

/-- **A chunk that is refused for its bytes has a wrong byte of the source**, or
completes a leaf that has one. -/
theorem refused_wrongBy (hinj : Function.Injective D.blake3)
    (htree : slot.chunkTree = some (ChunkTree.fromFile D T n))
    (hdesc : slot.artifact.Describes D T) {opening : Opening} {kept file : List Cell}
    {events : List StreamEvent} {st : StreamState} {d : Disk} {chunk : Bytes} {e : Error}
    (hH : LeafLoop slot source T (ChunkTree.fromFile D T n).leafSize opening kept events file d)
    (hin : InStep D (slot.target source) file st d)
    (he : Refused D (slot.target source)
      (unknownSizeCeiling (slot.target source) opening kept.length) st chunk e)
    (hfair : AllFair slot.artifact T (ChunkTree.fromFile D T n).leafSize
      (d.trace ++ [.delivered source.sourceId st.bytesDone chunk])) :
    WrongBy T source.sourceId
      (d.trace ++ [.delivered source.sourceId st.bytesDone chunk]) := by
  have hgot := hH.toContinues.received (List.prefix_refl chunk)
  rw [hin.length] at hgot
  have hkept := hH.kept_le_content hdesc
  have hlen : (file ++ cellsBy source.sourceId chunk).length =
      st.bytesDone + chunk.length := by
    rw [List.length_append, length_cellsBy, hin.length]
  cases he with
  | overlong h =>
    refine hgot.wrongBy_of_lt hfair hkept ?_
    rw [hlen, hdesc.size h.1.ne']
    exact h.2
  | @noSpace c hc h =>
    have hzero : slot.total = 0 :=
      total_eq_zero_of_ceiling (t := slot.target source) (by rw [hc]; rfl)
    have hnil : kept = [] := hH.fits.resolve_left (by omega)
    obtain ⟨rowOwner, hopened⟩ := hH.opened
    obtain ⟨-, hspace, -⟩ := (hfair.left _ hopened).2 hzero
    unfold unknownSizeCeiling at hc
    rw [if_pos (show (slot.target source).total = 0 from hzero), Option.map_eq_some_iff] at hc
    obtain ⟨avail, havail, rfl⟩ := hc
    refine hgot.wrongBy_of_lt hfair hkept ?_
    rw [hlen]
    rw [hnil, List.length_nil, Nat.zero_add] at h
    exact lt_of_le_of_lt (hspace avail havail) h
  | leaf h =>
    obtain ⟨c, hcheck, hctree, hc⟩ := leafCheck_inStep htree hin
    have hleaf := StreamingVerifier.feed_eq_error hcheck h
    obtain ⟨o, ho, hwrong⟩ := LeafCheck.wrongAt_of_feed hinj hc hctree hleaf
    rw [leafIndex_inStep hctree hc] at ho
    refine hgot.wrongBy hfair ((hH.kept_le _).trans ho) ?_
    rwa [bytesOf_append]

/-- **A stream that ends without verifying has a wrong byte of the source**, if
its opening was fair. -/
theorem ended_wrongBy (hinj : Function.Injective D.blake3)
    (htree : slot.chunkTree = some (ChunkTree.fromFile D T n))
    (hdesc : slot.artifact.Describes D T) {opening : Opening} {kept file : List Cell}
    {st : StreamState} {d : Disk} {e : Error}
    (hH : LeafLoop slot source T (ChunkTree.fromFile D T n).leafSize opening kept [] file d)
    (hin : InStep D (slot.target source) file st d) (hending : opening.ending = .endOfStream)
    (h : verifyStream D (slot.target source) st d = (.err e, d)) (hblames : e.blames = true)
    (hfair : AllFair slot.artifact T (ChunkTree.fromFile D T n).leafSize d.trace) :
    WrongBy T source.sourceId d.trace := by
  obtain ⟨rowOwner, hopened⟩ := hH.opened
  obtain ⟨done, hdone, hwhole, hlen⟩ := hH.whole
  rw [List.append_nil] at hdone
  have hunknown := (hfair _ hopened).2
  unfold verifyStream at h
  split at h
  · cases h
    cases hblames
  · rename_i hfull
    have hlong : T.length ≤ (bytesOf file).length := by
      rw [bytesOf, List.length_map]
      by_cases hzero : slot.total = 0
      · obtain ⟨-, -, hruns⟩ := hunknown hzero
        rw [hlen, ← hdone]
        exact (hruns ⟨hending, hdone ▸ hwhole⟩).trans (Nat.le_add_left _ _)
      · rw [hdesc.size hzero, hin.length]
        exact Nat.le_of_not_lt hfull
    cases hfinish : st.verifier.finish D with
    | ok hashes =>
      rw [hfinish] at h
      cases h
    | error e' =>
      obtain ⟨c, hcheck, hctree, hc⟩ := leafCheck_inStep htree hin
      obtain ⟨o, ho, hwrong⟩ := StreamingVerifier.wrongAt_of_finish hinj hin.consumed hcheck
        hctree hc hdesc.digests hdesc.size (fun hzero => (hunknown hzero).1) hlong hfinish
      rw [leafIndex_inStep hctree hc] at ho
      exact hH.wrongBy hfair ((hH.kept_le _).trans ho) hwrong

/-! ## One attempt -/

/-- Short for the invariant of a slot's partial, read off the disk's part that concerns the
slot. -/
def Slot.Answered (slot : Slot) (T : Bytes) (leafSize : ℕ) (d : Disk) : Prop :=
  (slot.view d).Answered slot.artifact T leafSize

theorem answered_of {T : Bytes} {leafSize : ℕ} {file : List Cell} {d : Disk}
    (htrace : Throughout (BlamedRightly slot.artifact T leafSize) d.trace)
    (htemp : d.temps slot.temp = some file) (hcells : Tracked d.trace file) :
    slot.Answered T leafSize d := by
  refine ⟨htrace, ?_⟩
  show Tracked d.trace ((d.temps slot.temp).getD [])
  rw [htemp]
  exact hcells

/-- What an attempt owes: the invariant, and that it may be blamed for what it is
blamed for. -/
def Answers (slot : Slot) (source : Source) (T : Bytes) (leafSize : ℕ) {α : Type}
    (r : Exit Error α) (d : Disk) : Prop :=
  slot.Answered T leafSize d ∧ ∀ e, r = .err e → e.blames = true →
    ((slot.view d).blamed source.sourceId).Answered slot.artifact T leafSize

theorem answers_of_blameless {T : Bytes} {leafSize : ℕ} {α : Type} {r : Exit Error α}
    {d : Disk} (h : slot.Answered T leafSize d) (hr : ∀ e, r = .err e → e.blames = false) :
    Answers slot source T leafSize r d :=
  ⟨h, fun e he hblames => by rw [hr e he] at hblames; cases hblames⟩

/-- A chunk that is written keeps the loop invariant. -/
theorem LeafLoop.written {opening : Opening} {kept file : List Cell} {ev : StreamEvent}
    {events : List StreamEvent} {d d' : Disk} {leafSize : ℕ} {chunk : Bytes}
    (h : LeafLoop slot source T leafSize opening kept (ev :: events) file d)
    (hc : ev.cancelled = false) (hitem : ev.item = .ok chunk) (hw : ev.write = .written)
    (htrace : d'.trace = d.trace ++ [.delivered source.sourceId file.length chunk]) :
    LeafLoop slot source T leafSize opening kept events
      (file ++ cellsBy source.sourceId chunk) d' := by
  obtain ⟨done, hdone, hwhole, hlen⟩ := h.whole
  have hgot := h.toContinues.received (List.prefix_refl chunk)
  rw [← htrace] at hgot
  refine ⟨hgot, ?_, ⟨done ++ [ev], ?_, ?_, ?_⟩, h.fits⟩
  · rw [htrace]
    exact h.trace.append_singleton trivial
  · rw [hdone, List.append_assoc]
    rfl
  · intro ev' hev'
    obtain hev' | hev' := List.mem_append.mp hev'
    · exact hwhole ev' hev'
    · obtain rfl := List.mem_singleton.mp hev'
      exact ⟨hc, by rw [hitem]; rfl, hw⟩
  · rw [List.length_append, length_cellsBy, hlen]
    unfold incoming
    rw [List.map_append, List.sum_append, List.map_singleton, List.sum_singleton, hitem,
      Nat.add_assoc]

/-- **One turn of the loop** keeps its invariant, or ends the attempt as it may end. -/
theorem leafLoop_step (hinj : Function.Injective D.blake3)
    (htree : slot.chunkTree = some (ChunkTree.fromFile D T n))
    (hdesc : slot.artifact.Describes D T) {opening : Opening} {kept file : List Cell}
    {ev : StreamEvent} {events : List StreamEvent} {st : StreamState} {d d' : Disk}
    {r : Exit Error StreamState}
    (hH : LeafLoop slot source T (ChunkTree.fromFile D T n).leafSize opening kept
      (ev :: events) file d)
    (hin : InStep D (slot.target source) file st d)
    (hspec : StepSpec D (slot.target source)
      (unknownSizeCeiling (slot.target source) opening kept.length) st ev file d (r, d')) :
    match r with
    | .ok _ => ∀ file', d'.temps slot.temp = some file' →
      LeafLoop slot source T (ChunkTree.fromFile D T n).leafSize opening kept events file' d'
    | r => Answers slot source T (ChunkTree.fromFile D T n).leafSize r d' := by
  have hreceived : ∀ {chunk landed : Bytes}, landed <+: chunk →
      slot.Answered T (ChunkTree.fromFile D T n).leafSize
        (received (slot.target source) st file chunk landed d) := by
    intro chunk landed hlanded
    refine answered_of (hH.trace.append_singleton trivial)
      (received_temp (slot.target source) st file chunk landed d) ?_
    show Tracked (d.trace ++ [.delivered source.sourceId st.bytesDone chunk])
      (file ++ cellsBy source.sourceId landed)
    rw [← hin.length]
    exact hH.cells.received hlanded
  cases hspec with
  | cancelled hc =>
    exact answers_of_blameless (answered_of hH.trace hin.temp hH.cells)
      fun e he => by cases he; rfl
  | @interrupted e hc hitem =>
    exact answers_of_blameless (answered_of hH.trace hin.temp hH.cells)
      fun e' he => by cases he; exact e.blameless
  -- the only exit of a step that may blame; fair openings make a wrong byte among the refused ones
  -- this source's own
  | @refused chunk e hc hitem he =>
    have hkept := hreceived (List.nil_prefix (l := chunk))
    exact ⟨hkept, fun _ _ _ => hkept.blamed fun hfair =>
      refused_wrongBy hinj htree hdesc hH hin he hfair⟩
  | @failed chunk k m hc hitem hw hfit =>
    exact answers_of_blameless (hreceived (List.take_prefix k chunk))
      fun e he => by cases he; rfl
  | @died chunk k hc hitem hw hfit =>
    exact answers_of_blameless (hreceived (List.take_prefix k chunk)) fun e he => nomatch he
  | @written chunk v hc hitem hw hfit hspace hfeed hq =>
    intro file' hfile'
    have hfile : file ++ cellsBy source.sourceId chunk = file' :=
      Option.some.inj
        ((received_temp (slot.target source) st file chunk chunk d).symm.trans hfile')
    exact hfile ▸ hH.written hc hitem hw (by rw [hin.length]; rfl)
  | @refreshed chunk v hc hitem hw hfit hspace hfeed hq =>
    intro file' hfile'
    have hfile : file ++ cellsBy source.sourceId chunk = file' :=
      Option.some.inj
        ((received_temp (slot.target source) st file chunk chunk d).symm.trans hfile')
    exact hfile ▸ hH.written hc hitem hw (by rw [hin.length]; rfl)

/-- What is handed over is gone, or left as it was. -/
theorem Slot.Answered.handedOver {leafSize : ℕ} {d d' : Disk} {r : Exit Error BlobMeta}
    (h : slot.Answered T leafSize d) (hover : HandedOver (slot.target source) d r d') :
    slot.Answered T leafSize d' := by
  have htrace : (slot.view d').trace = (slot.view d).trace := hover.trace
  refine ⟨htrace ▸ h.trace, htrace ▸ ?_⟩
  have hfile : d'.temps slot.temp = none ∨ d'.temps slot.temp = d.temps slot.temp := hover.temp
  obtain hnone | hsame := hfile
  · show Tracked _ ((d'.temps slot.temp).getD [])
    rw [hnone]
    exact Tracked.nil _
  · show Tracked _ ((d'.temps slot.temp).getD [])
    rw [hsame]
    exact h.cells

/-- What is resumed is tracked. -/
theorem tracked_resumable {leafSize : ℕ} {d : Disk} (h : slot.Answered T leafSize d) :
    Tracked d.trace (resumable (slot.target source) d) := by
  unfold resumable
  dsimp only
  split
  · exact h.cells
  · exact Tracked.nil _

theorem resumable_fits (t : Target) (d : Disk) :
    (resumable t d).length < t.total ∨ resumable t d = [] := by
  unfold resumable
  dsimp only
  split
  · rename_i h
    exact Or.inl h.2
  · exact Or.inr rfl

/-- The note of what is resumed blames nobody. -/
theorem resumedNote_blamedRightly {leafSize : ℕ} {d : Disk} (h : slot.Answered T leafSize d) :
    Throughout (BlamedRightly slot.artifact T leafSize)
      (d.trace ++ resumedNote (slot.target source) d) := by
  unfold resumedNote
  split
  · rw [List.append_nil]
    exact h.trace
  · exact h.trace.append_singleton trivial

/-- **One attempt** answers for what it is blamed for. -/
theorem streamOnce_answers (hinj : Function.Injective D.blake3)
    (htree : slot.chunkTree = some (ChunkTree.fromFile D T n))
    (hdesc : slot.artifact.Describes D T) (attempt : Attempt) :
    Triple (slot.Answered T (ChunkTree.fromFile D T n).leafSize)
      (streamOnce D (slot.target source) attempt)
      (Answers slot source T (ChunkTree.fromFile D T n).leafSize) := by
  refine streamOnce_rule
    (H := fun opening kept events _ file d =>
      LeafLoop slot source T (ChunkTree.fromFile D T n).leafSize opening kept events file d)
    ?_ ?_ ?_ ?_ ?_ ?_
  · intro d e file hP hblames hfile
    refine answers_of_blameless ⟨resumedNote_blamedRightly hP, ?_⟩
      fun e' he => by cases he; exact hblames
    show Tracked _ ((Function.update d.temps slot.temp file slot.temp).getD [])
    rw [Function.update_self]
    cases file with
    | none => exact Tracked.nil _
    | some cells =>
      obtain rfl | rfl := hfile cells rfl
      · exact (tracked_resumable hP).append _
      · exact Tracked.nil _
  -- the loop begins on what was resumed, all of it accounted for in the trace, or on nothing
  · intro d opening kept v hP hkept
    have hcells : Tracked d.trace kept ∧ (kept.length < slot.total ∨ kept = []) := by
      obtain rfl | rfl := hkept
      · exact ⟨tracked_resumable hP, resumable_fits (slot.target source) d⟩
      · exact ⟨Tracked.nil _, Or.inr rfl⟩
    exact
      { cells := (hcells.1.append _).append _
        own := ⟨[], (List.append_nil kept).symm, By.nil _⟩
        opened := ⟨_, List.mem_append_right _ List.mem_cons_self⟩
        trace := (resumedNote_blamedRightly hP).append_singleton trivial
        whole := ⟨[], rfl, fun ev hev => (by cases hev), rfl⟩
        fits := hcells.2 }
  · intro opening kept ev evs st file d r d' hH hin hspec
    have hstep := leafLoop_step hinj htree hdesc hH hin hspec
    cases r with
    | ok st' => exact hstep
    | err e =>
      exact ⟨hstep.1, fun e' he => hstep.2 e' (by cases he; rfl)⟩
    | crash => exact ⟨hstep.1, fun e' he => nomatch he⟩
  · exact fun opening kept st file d hH hin _ =>
      answers_of_blameless (answered_of hH.trace hin.temp hH.cells) fun e he => nomatch he
  -- the stream ended and what is in the file does not verify
  · intro opening kept st file d e hH hin hending hverify
    have hkept := answered_of hH.trace hin.temp hH.cells
    refine ⟨hkept, fun e' he hblames => hkept.blamed fun hfair => ?_⟩
    cases he
    exact ended_wrongBy hinj htree hdesc hH hin hending hverify hblames hfair
  · exact fun opening kept st file d r d' hH hin hover =>
      answers_of_blameless ((answered_of hH.trace hin.temp hH.cells).handedOver hover)
        hover.blameless

/-- **A segmented transfer** blames nobody, and writes what it delivered where it
delivered it. -/
theorem streamSegmented_answered {leafSize connections : ℕ} {run : SegmentedRun} :
    Triple (slot.Answered T leafSize)
      (streamSegmented D (slot.target source) connections run)
      (fun _ => slot.Answered T leafSize) := by
  refine streamSegmented_rule
    (W := fun d => slot.Answered T leafSize d ∧ ∃ file, d.temps slot.temp = some file)
    (fun _ => id) (fun d hd => ?_) (fun d d' hd hspec => ?_) (fun d hd => ?_)
    (fun d r d' hd hover => hd.1.handedOver hover) fun d hd => hd.1
  · have htemp := presizeTemp_temp (slot.target source) d
    refine ⟨answered_of ?_ htemp ?_, _, htemp⟩
    · rw [presizeTemp_trace]
      exact hd.trace
    · rw [presizeTemp_trace]
      exact Tracked.setLen hd.cells _
  · obtain ⟨hkept, file, hfile⟩ := hd
    have hcells : Tracked d.trace file := by
      have hview := hkept.cells
      unfold PartialView.cells Slot.view at hview
      rwa [hfile] at hview
    have hreceived : ∀ {offset : ℕ} {taken landed : Bytes}, landed <+: taken →
        slot.Answered T leafSize
            (segmentReceived (slot.target source) offset taken landed d) ∧
          ∃ file', (segmentReceived (slot.target source) offset taken landed d).temps
            slot.temp = some file' := by
      intro offset taken landed hlanded
      have htemp := segmentReceived_temp (t := slot.target source) hfile offset taken landed
      refine ⟨answered_of ?_ htemp ?_, _, htemp⟩
      · rw [segmentReceived_trace]
        exact hkept.trace.append_singleton trivial
      · rw [segmentReceived_trace]
        exact hcells.writeAt hlanded offset
    cases hspec with
    | kept => exact ⟨hkept, file, hfile⟩
    | wrote hlanded hfit => exact hreceived hlanded
    | refreshed hfit =>
      obtain ⟨hgot, file', hfile'⟩ := hreceived List.prefix_rfl
      exact ⟨⟨hgot.trace, hgot.cells⟩, file', hfile'⟩
  · have hcut := hd.1.cut
    rw [← slot.view_truncate] at hcut
    exact ⟨hcut.trace, hcut.cells⟩

/-! ## Calls -/

/-- **With the content's chunk tree everyone is blamed rightly**, and it stays
known who delivered what is in the partial. -/
def leafBlame (hinj : Function.Injective D.blake3)
    (htree : slot.chunkTree = some (ChunkTree.fromFile D T n))
    (hdesc : slot.artifact.Describes D T) : PartialInvariant D slot where
  turn _ := PartialView.Answered slot.artifact T (ChunkTree.fromFile D T n).leafSize
  between _ := PartialView.Answered slot.artifact T (ChunkTree.fromFile D T n).leafSize
  rest := PartialView.Answered slot.artifact T (ChunkTree.fromFile D T n).leafSize
  streamOnce _ attempt := streamOnce_answers hinj htree hdesc attempt
  streamSegmented _ _ _ := streamSegmented_answered
  cut _ _ h := h.cut
  enter _ _ _ h _ := h
  enter_cut _ _ _ h := h.cut
  leave _ _ h := h
  done _ _ h := h
  stop _ _ h := h
  discard _ h := ⟨h.trace, Tracked.nil _⟩
  start _ h _ _ := ⟨fun _ _ => h, h.cut⟩
  start_clean _ h _ := h

end Invariant

/-- **A source answers for its own bytes only.** Take a content an artifact
describes, and from a store without a partial of it make any calls that find the
content's chunk tree. Whoever is blamed after fair openings delivered a wrong byte
before; so if all openings were fair, whoever has an integrity failure on record,
or a file in quarantine, delivered one. -/
theorem blamed_delivered_wrong {D : Digests} (hinj : Function.Injective D.blake3)
    {manifestId : Text} {artifact : Artifact} {T : Bytes} (hdesc : artifact.Describes D T)
    {n : ℕ} {d : Disk}
    (htemp : d.temps (slotOf D manifestId artifact (some (ChunkTree.fromFile D T n))).temp =
      none)
    (htrace : d.trace = []) {calls : List Call}
    (hcalls : Along (callStep D manifestId artifact)
      (FindsTree D artifact (some (ChunkTree.fromFile D T n))) calls d) :
    Throughout (BlamedRightly artifact T (ChunkTree.fromFile D T n).leafSize)
        (calls.foldl (callStep D manifestId artifact) d).trace ∧
      (Recorded d →
        AllFair artifact T (ChunkTree.fromFile D T n).leafSize
          (calls.foldl (callStep D manifestId artifact) d).trace →
        (∀ row ∈ (calls.foldl (callStep D manifestId artifact) d).sourceHealth, row.Faulted →
          WrongBy T row.sourceId (calls.foldl (callStep D manifestId artifact) d).trace) ∧
        ∀ q ∈ (calls.foldl (callStep D manifestId artifact) d).quarantine,
          ∀ sourceId, q.sourceId = some sourceId →
            WrongBy T sourceId (calls.foldl (callStep D manifestId artifact) d).trace) := by
  have hstart : PartialView.Answered artifact T (ChunkTree.fromFile D T n).leafSize
      ((slotOf D manifestId artifact (some (ChunkTree.fromFile D T n))).view d) := by
    refine ⟨?_, ?_⟩
    · show Throughout _ d.trace
      rw [htrace]
      exact Throughout.nil _
    · show Tracked d.trace ((d.temps _).getD [])
      rw [htemp]
      exact Tracked.nil _
  have hend := (@leafBlame D (slotOf D manifestId artifact (some (ChunkTree.fromFile D T n)))
    T n hinj rfl hdesc).calls hstart hcalls
  refine ⟨hend.trace, fun hrecorded hfair => ?_⟩
  have hrecorded' : Recorded (calls.foldl (callStep D manifestId artifact) d) :=
    hcalls.invariant (fun d call hd _ => downloadArtifact_recorded _ _ _ _ d hd) hrecorded
  have hwrong : ∀ sourceId,
      Blamed (calls.foldl (callStep D manifestId artifact) d).trace sourceId →
      WrongBy T sourceId (calls.foldl (callStep D manifestId artifact) d).trace := by
    rintro sourceId ⟨cells, hmem⟩
    obtain ⟨i, hi⟩ := List.getElem?_of_mem hmem
    obtain ⟨e, he, hwrong⟩ := hend.trace i _ hi fun e he => hfair e (List.mem_of_mem_take he)
    exact ⟨e, List.mem_of_mem_take he, hwrong⟩
  exact ⟨fun row hrow hfault => hwrong _ (hrecorded'.health row hrow hfault),
    fun q hq sourceId hs => hwrong _ (hrecorded'.quarantine q hq sourceId hs)⟩

/-! ## A leaf of two writers -/

/-- The digests of `abc` and of its leaves of two bytes, and of what is mistaken
for them. -/
def leafDigests : Digests where
  blake3 := tabulated [
    (abc, ofNumber 32 0x6437b3ac38465133ffb63b75273a8db548c558465d79db03fd359c6cd5bd9d85),
    (0x00 :: [0x61, 0x62],
      ofNumber 32 0xe5cf3942919e072c410dcd09a8579b69c25cea94837c1bb3d725476cd71929a5),
    (0x00 :: [0x63],
      ofNumber 32 0x732874dc36c7e6c2cb61920dc5740c9bd14b0495c6933217631c0191559e3fa1),
    (0x01 :: (ofNumber 32 0xe5cf3942919e072c410dcd09a8579b69c25cea94837c1bb3d725476cd71929a5 ++
        ofNumber 32 0x732874dc36c7e6c2cb61920dc5740c9bd14b0495c6933217631c0191559e3fa1),
      ofNumber 32 0xb51ef07b430320f89c5f11a13bb13e62170832bc1a2f887fac976739fa9a8314),
    (0x00 :: [0x78, 0x62],
      ofNumber 32 0xba55aac98d1865e8836c060731dcde325131cf25c2f088c53cfa971bf03fae76),
    (0x00 :: [0x78, 0x79],
      ofNumber 32 0x5037c35b340c5a867f1f1f0ce69bfae137f9ab04c05f916e6f5b8b12c5c1297a),
    (utf8 "m::model.bin".toList,
      ofNumber 32 0xaa4c12899273ec16aec537ddea76a772292914339848cbc1306083f8fd67829f)]
  sha256 := strayDigests.sha256
  sha1 := tabulated []

theorem leafDigests_injective : Function.Injective leafDigests.blake3 :=
  tabulated_injective (by decide +kernel) (by decide +kernel)

/-- The file `abc`, with a chunk tree of two leaves, the second one a byte long, so that the
leaves have different sizes in the examples. -/
def leafArtifact : Artifact :=
  { abcArtifact with
    chunking := some ⟨2, (ChunkTree.fromFile leafDigests abc 2).rootHex leafDigests⟩ }

/-- A store that kept the chunk tree of a blob that is gone. -/
def treeStore : Disk :=
  { Disk.empty with
    cache := Cas.storeChunkTree leafArtifact.hashes.blake3 (ChunkTree.fromFile leafDigests abc 2)
      Disk.empty.cache }

/-- The store after some calls, from one that has the chunk tree of the file. -/
def afterLeafCalls (calls : List Call) : Disk :=
  calls.foldl (callStep leafDigests "m".toList leafArtifact) treeStore

/-- The first mirror delivers a wrong byte and breaks off inside the leaf; the
second delivers the rest, all of it true. -/
def leafCalls : List Call :=
  [callFrom mirrorA [arrives [0x78], breaks], callFrom mirrorB [arrives [0x62, 0x63]]]

/-- **An honest source is banned for a leaf it only completed.** -/
theorem honest_blamed_for_leaf :
    ¬ WrongBy abc mirrorB.sourceId (afterLeafCalls leafCalls).trace ∧
      (Db.getSourceHealth mirrorB.sourceId (afterLeafCalls leafCalls).sourceHealth).banned =
        true ∧
      ((afterLeafCalls leafCalls).quarantine.map QuarantineRecord.sourceId =
        [some mirrorB.sourceId]) ∧
      (Db.getSourceHealth mirrorA.sourceId (afterLeafCalls leafCalls).sourceHealth).banned =
        false := by
  decide +kernel

/-- A mirror that delivers a wrong leaf is banned, and did. -/
theorem blamed_for_own_leaf :
    WrongBy abc mirrorA.sourceId
      (afterLeafCalls [callFrom mirrorA [arrives [0x78, 0x79]]]).trace := by
  have hdesc : leafArtifact.Describes leafDigests abc :=
    ⟨⟨fun _ => by decide +kernel, fun h => (by cases h), fun h => (by cases h)⟩,
      fun _ => rfl⟩
  obtain ⟨row, hrow, hid, hfault⟩ : ∃ row ∈
      (afterLeafCalls [callFrom mirrorA [arrives [0x78, 0x79]]]).sourceHealth,
      row.sourceId = mirrorA.sourceId ∧ 0 < row.integrityFailures := by
    decide +kernel
  have hcalls : Along (callStep leafDigests "m".toList leafArtifact)
      (FindsTree leafDigests leafArtifact (some (ChunkTree.fromFile leafDigests abc 2)))
      [callFrom mirrorA [arrives [0x78, 0x79]]] treeStore :=
    ⟨fun _ => by decide +kernel, trivial⟩
  have hrecorded : Recorded treeStore :=
    ⟨fun row hrow => (by cases hrow), fun q hq => (by cases hq)⟩
  exact hid ▸ ((blamed_delivered_wrong leafDigests_injective hdesc rfl rfl hcalls).2 hrecorded
    (by decide +kernel)).1 row hrow (Or.inl hfault)

end Atlas
