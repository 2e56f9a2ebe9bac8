import Atlas.MirrorAttempts
import Atlas.SegmentTiling

/-!
# Segments from a server that has the file

The connections of a segmented transfer share one temp, and their turns may come in any order.
Each writes within its own range of the file, so that what a connection has written stays what
the server sent for it, whatever the others do in between: `Segmented` is kept by every turn of
every connection (`Segmented.step`). Once all turns were taken, the temp is the file, if each
connection got its range; otherwise the transfer failed and nobody is to blame.
-/

namespace Atlas

open Text Program

variable {D : Digests} {t : Target} {b : Bytes} {d : Disk}

/-! ## Turns -/

/-- The turns of one connection, in their order, with those of the others left out. -/
def turnsOf (k : ℕ) (turns : List (ℕ × SegmentInput)) : List SegmentInput :=
  (turns.filter fun turn => turn.1 = k).map Prod.snd

theorem turnsOf_cons_self (turn : ℕ × SegmentInput) (turns : List (ℕ × SegmentInput)) :
    turnsOf turn.1 (turn :: turns) = turn.2 :: turnsOf turn.1 turns := by
  unfold turnsOf
  rw [List.filter_cons_of_pos (by rw [decide_eq_true_iff]), List.map_cons]

theorem turnsOf_cons_of_ne {turn : ℕ × SegmentInput} {k : ℕ} (h : k ≠ turn.1)
    (turns : List (ℕ × SegmentInput)) : turnsOf k (turn :: turns) = turnsOf k turns := by
  unfold turnsOf
  rw [List.filter_cons_of_neg (by rw [decide_eq_true_iff]; exact Ne.symm h)]

/-- What comes of a stream, piece by piece, and its end, in the form in which a segment is
fed, with nothing that disturbs it in between. -/
def streamTurns (items : List (Except AdapterError Bytes)) : List SegmentInput :=
  items.map (fun item => .event (undisturbed item)) ++ [.endOfStream]

/-- The turns of a connection for a range from `start` on, by what the adapter opened. -/
def connectionTurns (start : ℕ) : Except AdapterError Opened → List SegmentInput
  | .error e => [.openFailed e]
  | .ok o => .opened (o.effectiveStart = start) :: streamTurns o.stream

namespace Mirror

/-- What the mirror makes of the `request`-th request for a range, as the adapter reports it. -/
def opensSegment (m : Mirror b) (sourceId : Text) (request : ℕ) (range : ℕ × ℕ) :
    Except AdapterError Opened :=
  HttpClient.openUrl sourceId (some ⟨range.1, some range.2⟩)
    (m.answer request (some ⟨range.1, some range.2⟩))

/-- The range arrives, all of it, on a connection that starts where the range does. -/
def DeliversSegment (m : Mirror b) (sourceId : Text) (request : ℕ) (range : ℕ × ℕ) : Prop :=
  ∃ o, m.opensSegment sourceId request range = .ok o ∧ o.effectiveStart = range.1 ∧
    range.2 - range.1 ≤ (arrived o.stream).length

end Mirror

/-- **What the adapter opens for a range of the file**, where `C` is that the range arrives. -/
structure Sent (b : Bytes) (range : ℕ × ℕ) (C : Prop) (sent : Except AdapterError Opened) :
    Prop where
  uncancelled : ∀ e, sent = .error e → e.error ≠ .cancelled
  retriable : ∀ o, sent = .ok o → Retriable o.stream
  start : ∀ o, sent = .ok o → o.effectiveStart = range.1 ∨ o.effectiveStart = 0
  arrived : ∀ o, sent = .ok o → arrived o.stream <+: b.drop o.effectiveStart
  delivers : C ↔ ∃ o, sent = .ok o ∧ o.effectiveStart = range.1 ∧
    range.2 - range.1 ≤ (Atlas.arrived o.stream).length

theorem Sent.of_iff {range : ℕ × ℕ} {C C' : Prop} {sent : Except AdapterError Opened}
    (h : Sent b range C sent) (hC : C' ↔ C) : Sent b range C' sent :=
  ⟨h.uncancelled, h.retriable, h.start, h.arrived, hC.trans h.delivers⟩

theorem Mirror.sent (m : Mirror b) (sourceId : Text) (request : ℕ) (range : ℕ × ℕ) :
    Sent b range (m.DeliversSegment sourceId request range)
      (m.opensSegment sourceId request range) := by
  have hhonest : ∀ o, m.opensSegment sourceId request range = .ok o →
      (o.effectiveStart = range.1 ∨ o.effectiveStart = 0) ∧
        Atlas.arrived o.stream <+: b.drop o.effectiveStart := by
    intro o ho
    unfold Mirror.opensSegment at ho
    cases hsent : m.answer request (some ⟨range.1, some range.2⟩) with
    | error e =>
      rw [hsent] at ho
      cases ho
    | ok resp =>
      rw [hsent] at ho
      exact HttpClient.openUrl_honest (m.honest _ _ _ hsent) ho
  exact
    { uncancelled := fun e he => HttpClient.openUrl_uncancelled he
      retriable := fun o ho => HttpClient.openUrl_retriable ho
      start := fun o ho => (hhonest o ho).1
      arrived := fun o ho => (hhonest o ho).2
      delivers := Iff.rfl }

/-! ## One connection -/

/-- **Where a connection is**: whether it is open, how much of its range it has, and the turns
it has still to take. -/
inductive Connection (b : Bytes) (range : ℕ × ℕ) (C : Prop) :
    Bool → ℕ → List SegmentInput → Prop
  /-- It was not opened yet. -/
  | waiting {sent : Except AdapterError Opened} (sent_of : Sent b range C sent) :
    Connection b range C false 0 (connectionTurns range.1 sent)
  /-- What is still to come continues what it has. -/
  | streaming {items : List (Except AdapterError Bytes)} {got : ℕ}
    (retriable : Retriable items) (got_le : got ≤ range.2 - range.1)
    (arrives : got < range.2 - range.1 → arrived items <+: b.drop (range.1 + got))
    (delivers : C ↔ range.2 - range.1 ≤ got + (arrived items).length) :
    Connection b range C true got (streamTurns items)
  /-- It has its range. -/
  | ended (delivered : C) : Connection b range C true (range.2 - range.1) []

namespace Connection

variable {range : ℕ × ℕ} {C : Prop} {opened : Bool} {got : ℕ} {rest : List SegmentInput}

theorem got_le (h : Connection b range C opened got rest) : got ≤ range.2 - range.1 := by
  cases h with
  | waiting => exact Nat.zero_le _
  | streaming _ hle => exact hle
  | ended => exact Nat.le_refl _

/-- A connection without turns has its range. -/
theorem of_nil (h : Connection b range C opened got []) :
    opened = true ∧ got = range.2 - range.1 ∧ C := by
  generalize hrest : ([] : List SegmentInput) = rest at h
  cases h with
  | @waiting sent =>
    cases sent with
    | error e => cases hrest
    | ok o => cases hrest
  | @streaming items =>
    exact absurd hrest.symm (List.append_ne_nil_of_right_ne_nil _ (List.cons_ne_nil _ _))
  | ended hdelivered => exact ⟨rfl, rfl, hdelivered⟩

/-- Opening a connection: it fails, or it streams its range. -/
theorem opened_turn {honoursRange : Bool}
    (h : Connection b range C opened got (.opened honoursRange :: rest)) :
    opened = false ∧ got = 0 ∧
      ((range.1 ≠ 0 ∧ honoursRange = false ∧ ¬ C) ∨
        (honoursRange = true ∧ Connection b range C true 0 rest)) := by
  generalize hrest : SegmentInput.opened honoursRange :: rest = turns at h
  cases h with
  | @waiting sent hsent =>
    cases sent with
    | error e => cases hrest
    | ok o =>
      obtain ⟨hhead, rfl⟩ := List.cons.inj hrest
      have hhonours : honoursRange = decide (o.effectiveStart = range.1) :=
        SegmentInput.opened.inj hhead
      refine ⟨rfl, rfl, ?_⟩
      have hdelivers : C ↔ o.effectiveStart = range.1 ∧
          range.2 - range.1 ≤ (arrived o.stream).length := by
        rw [hsent.delivers]
        constructor
        · rintro ⟨o', ho', hrest'⟩
          cases ho'
          exact hrest'
        · exact fun hrest' => ⟨o, rfl, hrest'⟩
      by_cases hstart : o.effectiveStart = range.1
      · refine Or.inr ⟨hhonours.trans (decide_eq_true hstart), .streaming
          (hsent.retriable o rfl) (Nat.zero_le _) (fun _ => ?_) ?_⟩
        · rw [Nat.add_zero, ← hstart]
          exact hsent.arrived o rfl
        · rw [Nat.zero_add, hdelivers, and_iff_right hstart]
      · refine Or.inl ⟨fun hzero => hstart ?_, hhonours.trans (decide_eq_false hstart),
          fun hc => hstart (hdelivers.mp hc).1⟩
        rw [hzero]
        exact (hsent.start o rfl).resolve_left hstart
  | @streaming items =>
    cases items with
    | nil => cases hrest
    | cons item items => cases hrest
  | ended => cases hrest

/-- A connection that cannot be opened does not deliver. -/
theorem openFailed_turn {e : AdapterError}
    (h : Connection b range C opened got (.openFailed e :: rest)) :
    opened = false ∧ e.error ≠ .cancelled ∧ ¬ C := by
  generalize hrest : SegmentInput.openFailed e :: rest = turns at h
  cases h with
  | @waiting sent hsent =>
    cases sent with
    | error e' =>
      obtain ⟨hhead, -⟩ := List.cons.inj hrest
      cases hhead
      refine ⟨rfl, hsent.uncancelled e rfl, fun hc => ?_⟩
      obtain ⟨o, ho, -⟩ := hsent.delivers.mp hc
      cases ho
    | ok o => cases hrest
  | @streaming items =>
    cases items with
    | nil => cases hrest
    | cons item items => cases hrest
  | ended => cases hrest

/-- The end of a stream: the connection has its range, or the range did not arrive. -/
theorem endOfStream_turn (h : Connection b range C opened got (.endOfStream :: rest)) :
    opened = true ∧ ((got < range.2 - range.1 ∧ ¬ C) ∨
      (got = range.2 - range.1 ∧ Connection b range C opened got rest)) := by
  generalize hrest : SegmentInput.endOfStream :: rest = turns at h
  cases h with
  | @waiting sent =>
    cases sent with
    | error e => cases hrest
    | ok o => cases hrest
  | @streaming items _ _ hle _ hdelivers =>
    cases items with
    | nil =>
      obtain ⟨-, rfl⟩ := List.cons.inj hrest
      rw [show (arrived ([] : List (Except AdapterError Bytes))).length = 0 from rfl,
        Nat.add_zero] at hdelivers
      refine ⟨rfl, ?_⟩
      by_cases hlt : got < range.2 - range.1
      · exact Or.inl ⟨hlt, fun hc => absurd (hdelivers.mp hc) (Nat.not_le_of_lt hlt)⟩
      · have heq : got = range.2 - range.1 := Nat.le_antisymm hle (Nat.le_of_not_lt hlt)
        subst heq
        exact Or.inr ⟨rfl, .ended (hdelivers.mpr (Nat.le_refl _))⟩
    | cons item items => cases hrest
  | ended => cases hrest

/-- A piece of the stream: it is of no use any more, or it breaks the connection, or it
continues what the connection has. -/
theorem event_turn {ev : StreamEvent} (h : Connection b range C opened got (.event ev :: rest)) :
    opened = true ∧ ∃ item, ev = undisturbed item ∧
      ((got = range.2 - range.1 ∧ Connection b range C opened got rest) ∨
        (got < range.2 - range.1 ∧ (∀ e, item = .error e → e.error.isRetriable = true ∧ ¬ C) ∧
          ∀ chunk, item = .ok chunk →
            chunk.take (range.2 - range.1 - got) <+: b.drop (range.1 + got) ∧
            Connection b range C opened
              (got + (chunk.take (range.2 - range.1 - got)).length) rest)) := by
  generalize hrest : SegmentInput.event ev :: rest = turns at h
  cases h with
  | @waiting sent =>
    cases sent with
    | error e => cases hrest
    | ok o => cases hrest
  | @streaming items _ hretriable hle harrives hdelivers =>
    cases items with
    | nil => cases hrest
    | cons item items =>
      obtain ⟨hhead, rfl⟩ := List.cons.inj hrest
      have hlater : Retriable items := fun e he => hretriable e (List.mem_cons_of_mem _ he)
      refine ⟨rfl, item, SegmentInput.event.inj hhead, ?_⟩
      -- either the range still lacks bytes and the item counts, or it is complete and the item is
      -- dropped
      by_cases hlt : got < range.2 - range.1
      · refine Or.inr ⟨hlt, fun e he => ?_, fun chunk hchunk => ?_⟩
        · subst he
          refine ⟨hretriable e List.mem_cons_self, fun hc => ?_⟩
          have hall := hdelivers.mp hc
          rw [show (arrived (Except.error e :: items)).length = 0 from rfl] at hall
          omega
        · subst hchunk
          have hbegins := harrives hlt
          rw [show arrived (Except.ok chunk :: items) = chunk ++ arrived items from rfl]
            at hbegins hdelivers
          rw [List.length_append] at hdelivers
          have hchunk : chunk <+: b.drop (range.1 + got) :=
            (List.prefix_append _ _).trans hbegins
          refine ⟨(List.take_prefix _ _).trans hchunk, ?_⟩
          -- the last chunk of a range may be longer than what the range lacks
          by_cases hfits : chunk.length ≤ range.2 - range.1 - got
          · rw [List.take_of_length_le hfits]
            refine .streaming hlater (by omega) (fun _ => ?_)
              (by rw [hdelivers, Nat.add_assoc])
            obtain ⟨more, hmore⟩ := hbegins
            refine ⟨more, ?_⟩
            rw [← Nat.add_assoc, ← List.drop_drop, ← hmore, List.append_assoc,
              List.drop_left]
          · have hfull : got + (chunk.take (range.2 - range.1 - got)).length =
                range.2 - range.1 := by
              rw [List.length_take]
              omega
            rw [hfull]
            refine .streaming hlater (Nat.le_refl _)
              (fun hlt' => absurd hlt' (Nat.lt_irrefl _)) ?_
            rw [hdelivers]
            constructor
            · exact fun _ => Nat.le_add_right _ _
            · intro _
              omega
      · have heq : got = range.2 - range.1 := Nat.le_antisymm hle (Nat.le_of_not_lt hlt)
        refine Or.inl ⟨heq, .streaming hlater hle (fun hlt' => absurd hlt' hlt) ?_⟩
        rw [hdelivers]
        constructor
        · intro _
          omega
        · intro _
          omega
  | ended => cases hrest

end Connection

/-! ## All connections -/

/-- No position is in two ranges of a tiling. -/
theorem index_eq_of_tiles {lo hi : ℕ} {ranges : List (ℕ × ℕ)} (h : Tiles lo hi ranges)
    {k l : ℕ} {r s : ℕ × ℕ} (hk : ranges[k]? = some r) (hl : ranges[l]? = some s) {i : ℕ}
    (hr : r.1 ≤ i ∧ i < r.2) (hs : s.1 ≤ i ∧ i < s.2) : k = l := by
  have hpairs := List.pairwise_iff_getElem.mp h.pairwise
  obtain ⟨hk', rfl⟩ := List.getElem?_eq_some_iff.mp hk
  obtain ⟨hl', rfl⟩ := List.getElem?_eq_some_iff.mp hl
  obtain hlt | heq | hlt := Nat.lt_trichotomy k l
  · have hle := hpairs k l hk' hl' hlt
    omega
  · exact heq
  · have hle := hpairs l k hl' hk' hlt
    omega

/-- **What every turn keeps**: the temp is as long as the file, each connection is where its
turns left it, and what it has of its range is in the temp. -/
structure SegmentsKept (b : Bytes) (ranges : List (ℕ × ℕ)) (C : ℕ → Prop) (st : SegmentState)
    (rest : List (ℕ × SegmentInput)) (file : List Cell) : Prop where
  length : file.length = b.length
  connection : ∀ k range, ranges[k]? = some range →
    Connection b range (C k) (st.opened k) (st.got k) (turnsOf k rest)
  written : ∀ k range, ranges[k]? = some range →
    ∀ i, range.1 ≤ i → i < range.1 + st.got k → (bytesOf file)[i]? = b[i]?

namespace SegmentsKept

variable {ranges : List (ℕ × ℕ)} {C : ℕ → Prop} {st : SegmentState}
  {rest : List (ℕ × SegmentInput)} {file : List Cell}

/-- A turn of one connection leaves the others and their ranges alone. -/
theorem advance {turn : ℕ × SegmentInput} (h : SegmentsKept b ranges C st (turn :: rest) file)
    (htiles : Tiles 0 b.length ranges) {range : ℕ × ℕ} (hrange : ranges[turn.1]? = some range)
    {st' : SegmentState} {file' : List Cell}
    (hopened : ∀ k, k ≠ turn.1 → st'.opened k = st.opened k)
    (hgot : ∀ k, k ≠ turn.1 → st'.got k = st.got k) (hlength : file'.length = file.length)
    (hcells : ∀ i, ¬ (range.1 ≤ i ∧ i < range.2) → (bytesOf file')[i]? = (bytesOf file)[i]?)
    (hconn : Connection b range (C turn.1) (st'.opened turn.1) (st'.got turn.1)
      (turnsOf turn.1 rest))
    (hwritten : ∀ i, range.1 ≤ i → i < range.1 + st'.got turn.1 →
      (bytesOf file')[i]? = b[i]?) :
    SegmentsKept b ranges C st' rest file' := by
  refine ⟨hlength.trans h.length, fun k other hk => ?_, fun k other hk i hle hlt => ?_⟩
  · by_cases hsame : k = turn.1
    · subst hsame
      cases hrange.symm.trans hk
      exact hconn
    · rw [hopened k hsame, hgot k hsame, ← turnsOf_cons_of_ne hsame]
      exact h.connection k other hk
  · by_cases hsame : k = turn.1
    · subst hsame
      cases hrange.symm.trans hk
      exact hwritten i hle hlt
    · rw [hgot k hsame] at hlt
      have hgot_le := (h.connection k other hk).got_le
      have hother : other.1 ≤ i ∧ i < other.2 := ⟨hle, by omega⟩
      rw [hcells i fun hin => hsame (index_eq_of_tiles htiles hk hrange hother hin)]
      exact h.written k other hk i hle hlt

/-- A turn that changes nothing but where its connection is. -/
theorem stay {turn : ℕ × SegmentInput} (h : SegmentsKept b ranges C st (turn :: rest) file)
    (htiles : Tiles 0 b.length ranges) {range : ℕ × ℕ} (hrange : ranges[turn.1]? = some range)
    (hconn : Connection b range (C turn.1) (st.opened turn.1) (st.got turn.1)
      (turnsOf turn.1 rest)) : SegmentsKept b ranges C st rest file :=
  h.advance htiles hrange (fun _ _ => rfl) (fun _ _ => rfl) rfl (fun _ _ => rfl) hconn
    (h.written _ range hrange)

/-- A turn of no connection. -/
theorem foreign {turn : ℕ × SegmentInput} (h : SegmentsKept b ranges C st (turn :: rest) file)
    (hnone : ranges[turn.1]? = none) : SegmentsKept b ranges C st rest file := by
  refine ⟨h.length, fun k range hk => ?_, h.written⟩
  have hne : k ≠ turn.1 := by
    rintro rfl
    rw [hnone] at hk
    cases hk
  rw [← turnsOf_cons_of_ne hne]
  exact h.connection k range hk

/-- Without turns left, every connection has its range, and the temp is the file. -/
theorem whole (h : SegmentsKept b ranges C st [] file) (htiles : Tiles 0 b.length ranges) :
    (∀ k range, ranges[k]? = some range → C k) ∧ segmentsDone ranges st = true ∧
      bytesOf file = b := by
  have hdone : ∀ k range, ranges[k]? = some range →
      st.opened k = true ∧ st.got k = range.2 - range.1 ∧ C k :=
    fun k range hk => (h.connection k range hk).of_nil
  refine ⟨fun k range hk => (hdone k range hk).2.2, ?_, ?_⟩
  · unfold segmentsDone
    rw [List.all_eq_true]
    rintro ⟨⟨start, stop⟩, k⟩ hmem
    obtain ⟨hopened, hgot, -⟩ := hdone k (start, stop) (List.mk_mem_zipIdx_iff_getElem?.mp hmem)
    show (st.opened k && decide (stop - start ≤ st.got k)) = true
    rw [hopened, hgot]
    exact decide_eq_true (Nat.le_refl _)
  · refine List.ext_getElem? fun i => ?_
    by_cases hi : i < b.length
    · obtain ⟨range, hmem, hle, hlt⟩ := (htiles.mem_iff i).mpr ⟨Nat.zero_le _, hi⟩
      obtain ⟨k, hk⟩ := List.getElem?_of_mem hmem
      refine h.written k range hk i hle ?_
      rw [(hdone k range hk).2.1]
      omega
    · have hge : b.length ≤ i := Nat.le_of_not_lt hi
      rw [List.getElem?_eq_none hge, List.getElem?_eq_none]
      rw [bytesOf, List.length_map, h.length]
      exact hge

end SegmentsKept

/-! ## One turn -/

/-- What was written inside a temp, and what was there. -/
theorem getElem?_bytesOf_writeAt {file : List Cell} {off : ℕ} {data : Bytes} (sourceId : Text)
    (h : off + data.length ≤ file.length) (i : ℕ) :
    (bytesOf (SparseFile.writeAt Cell.hole off (cellsBy sourceId data) file))[i]? =
      if off ≤ i ∧ i < off + data.length then data[i - off]? else (bytesOf file)[i]? := by
  have hlen : (cellsBy sourceId data).length = data.length := length_cellsBy sourceId data
  unfold bytesOf
  rw [List.getElem?_map, SparseFile.getElem?_writeAt_of_le Cell.hole (by rwa [hlen]), hlen]
  split
  · rw [← List.getElem?_map]
    have hbytes := bytesOf_append [] sourceId data
    rw [List.nil_append] at hbytes
    exact congrArg (fun bytes => bytes[i - off]?) hbytes
  · rw [List.getElem?_map]

/-- A piece that arrives continues what its connection has in the temp. -/
theorem SegmentsKept.write {ranges : List (ℕ × ℕ)} {C : ℕ → Prop} {st : SegmentState}
    {turn : ℕ × SegmentInput} {rest : List (ℕ × SegmentInput)} {file : List Cell}
    (h : SegmentsKept b ranges C st (turn :: rest) file) (htiles : Tiles 0 b.length ranges)
    {range : ℕ × ℕ} (hrange : ranges[turn.1]? = some range) {taken : Bytes}
    (hfits : st.got turn.1 + taken.length ≤ range.2 - range.1)
    (htaken : taken <+: b.drop (range.1 + st.got turn.1))
    (hconn : Connection b range (C turn.1) (st.opened turn.1)
      (st.got turn.1 + taken.length) (turnsOf turn.1 rest)) (sourceId : Text)
    (progressed lastEmit : ℕ) :
    SegmentsKept b ranges C
      { st with
        got := Function.update st.got turn.1 (st.got turn.1 + taken.length)
        progressed := progressed
        lastEmit := lastEmit } rest
      (SparseFile.writeAt Cell.hole (range.1 + st.got turn.1) (cellsBy sourceId taken) file) := by
  obtain ⟨-, hlt, hle⟩ := htiles.within (List.mem_of_getElem? hrange)
  have hfile : range.1 + st.got turn.1 + taken.length ≤ file.length := by
    rw [h.length]
    omega
  have hcell := getElem?_bytesOf_writeAt sourceId hfile
  refine h.advance htiles hrange (fun _ _ => rfl)
    (fun k hk => Function.update_of_ne hk _ _) ?_ (fun i hi => ?_) ?_ (fun i hi hlt' => ?_)
  · rw [SparseFile.length_writeAt]
    rwa [length_cellsBy]
  · rw [hcell, if_neg]
    omega
  · dsimp only
    rw [Function.update_self]
    exact hconn
  · dsimp only at hlt'
    rw [Function.update_self] at hlt'
    rw [hcell]
    by_cases hnew : range.1 + st.got turn.1 ≤ i
    · rw [if_pos ⟨hnew, by omega⟩]
      obtain ⟨more, hmore⟩ := htaken
      have hin : i - (range.1 + st.got turn.1) < taken.length := by omega
      have hwhole : (taken ++ more)[i - (range.1 + st.got turn.1)]? =
          taken[i - (range.1 + st.got turn.1)]? := List.getElem?_append_left hin
      rw [← hwhole, hmore, List.getElem?_drop, Nat.add_sub_cancel' hnew]
    · rw [if_neg (fun hin => hnew hin.1)]
      exact h.written turn.1 range hrange i hi (Nat.lt_of_not_le hnew)

/-- How a turn fails: some range does not arrive, and nobody is to blame. -/
structure SegmentFailed (C : ℕ → Prop) (ranges : List (ℕ × ℕ)) (e : Error) : Prop where
  blameless : e.blames = false
  uncancelled : e ≠ .cancelled
  undelivered : ∃ k range, ranges[k]? = some range ∧ ¬ C k

/-- **One turn of one connection**: it keeps what every turn keeps, or a range does not arrive. -/
theorem segmentStep_kept {ranges : List (ℕ × ℕ)} {C : ℕ → Prop} {st : SegmentState}
    {turn : ℕ × SegmentInput} {rest : List (ℕ × SegmentInput)} {file : List Cell}
    (h : SegmentsKept b ranges C st (turn :: rest) file) (htiles : Tiles 0 b.length ranges)
    (htemp : d.temps t.temp = some file) :
    (∃ st' d' file', segmentStep t ranges st turn d = (.ok st', d') ∧
      d'.temps t.temp = some file' ∧ SegmentsKept b ranges C st' rest file') ∨
    ∃ e d', segmentStep t ranges st turn d = (.err e, d') ∧ SegmentFailed C ranges e := by
  unfold segmentStep
  cases hrange : ranges[turn.1]? with
  | none => exact Or.inl ⟨st, d, file, rfl, htemp, h.foreign hrange⟩
  -- the turn belongs to a connection with a range of its own; `hconn` says what that connection can
  -- still send
  | some range =>
    have hconn := h.connection turn.1 range hrange
    rw [turnsOf_cons_self] at hconn
    have hfail : ∀ {e : Error}, e.blames = false → e ≠ .cancelled → ¬ C turn.1 →
        SegmentFailed C ranges e := fun hblames hne hC =>
      ⟨hblames, hne, turn.1, range, hrange, hC⟩
    dsimp only
    cases hinput : turn.2 with
    | openFailed e =>
      rw [hinput] at hconn
      obtain ⟨hopened, hne, hC⟩ := hconn.openFailed_turn
      dsimp only
      rw [hopened, if_neg Bool.false_ne_true]
      exact Or.inr ⟨_, d, rfl, hfail e.blameless hne hC⟩
    | opened honoursRange =>
      rw [hinput] at hconn
      obtain ⟨hopened, hgot, ⟨hstart, rfl, hC⟩ | ⟨rfl, hnext⟩⟩ := hconn.opened_turn
      · dsimp only
        rw [if_neg Bool.false_ne_true, if_pos (Ne.symm hstart)]
        exact Or.inr ⟨_, d, rfl, hfail rfl (fun he => by cases he) hC⟩
      · dsimp only
        rw [if_pos rfl, if_neg (fun hne => hne rfl)]
        refine Or.inl ⟨_, d, file, rfl, htemp, ?_⟩
        refine h.advance htiles hrange (fun k hk => Function.update_of_ne hk _ _)
          (fun _ _ => rfl) rfl (fun _ _ => rfl) ?_ (h.written turn.1 range hrange)
        dsimp only
        rw [Function.update_self, hgot]
        exact hnext
    -- a connection that ends short of its range fails the whole segmented run, and only a mirror
    -- that breaks does so
    | endOfStream =>
      rw [hinput] at hconn
      obtain ⟨hopened, ⟨hlt, hC⟩ | ⟨heq, hnext⟩⟩ := hconn.endOfStream_turn
      · dsimp only
        rw [if_pos ⟨hopened, hlt⟩]
        exact Or.inr ⟨_, d, rfl, hfail rfl (fun he => by cases he) hC⟩
      · dsimp only
        rw [if_neg (fun hshort => absurd hshort.2 (by rw [heq]; exact Nat.lt_irrefl _))]
        exact Or.inl ⟨st, d, file, rfl, htemp, h.stay htiles hrange hnext⟩
    | event ev =>
      rw [hinput] at hconn
      obtain ⟨hopened, item, rfl, ⟨heq, hnext⟩ | ⟨hlt, herror, hok⟩⟩ := hconn.event_turn
      · dsimp only
        rw [if_pos (Or.inr (Nat.le_of_eq heq.symm))]
        exact Or.inl ⟨st, d, file, rfl, htemp, h.stay htiles hrange hnext⟩
      · have hreads : ¬ ((!st.opened turn.1) = true ∨ range.2 - range.1 ≤ st.got turn.1) := by
          rw [hopened]
          exact fun hor => hor.elim (fun hfalse => by cases hfalse)
            fun hle => absurd hle (Nat.not_le_of_lt hlt)
        dsimp only
        rw [if_neg hreads, if_neg (show ¬ (undisturbed item).cancelled = true from
          Bool.false_ne_true)]
        cases hitem : item with
        | error e =>
          obtain ⟨hretriable, hC⟩ := herror e hitem
          obtain ⟨hblames, hne⟩ := Error.blameless_of_isRetriable hretriable
          exact Or.inr ⟨_, d, rfl, hfail hblames hne hC⟩
        | ok chunk =>
          obtain ⟨htaken, hnext⟩ := hok chunk hitem
          -- the chunk is cut at the range's end, so a mirror that sends on past it writes nothing
          -- of its neighbour's
          have hfits : st.got turn.1 +
              (chunk.take (range.2 - range.1 - st.got turn.1)).length ≤ range.2 - range.1 := by
            rw [List.length_take]
            omega
          have hwrite := segmentReceived_temp htemp (range.1 + st.got turn.1)
            (chunk.take (range.2 - range.1 - st.got turn.1))
            (chunk.take (range.2 - range.1 - st.got turn.1))
          dsimp only [undisturbed]
          rw [bind_apply, modify_apply, andThen_ok, bind_apply, modify_apply, andThen_ok]
          split
          · rw [bind_apply, modify_apply, andThen_ok]
            exact Or.inl ⟨_, _, _, rfl, hwrite,
              h.write htiles hrange hfits htaken hnext t.sourceId _ _⟩
          · exact Or.inl ⟨_, _, _, rfl, hwrite,
              h.write htiles hrange hfits htaken hnext t.sourceId _ _⟩

/-- **All turns**, in any order. -/
theorem foldlM_segmentStep_kept {ranges : List (ℕ × ℕ)} {C : ℕ → Prop}
    (htiles : Tiles 0 b.length ranges) {turns : List (ℕ × SegmentInput)} {st : SegmentState}
    {file : List Cell} (h : SegmentsKept b ranges C st turns file)
    (htemp : d.temps t.temp = some file) :
    (∃ st' d' file', turns.foldlM (segmentStep t ranges) st d = (.ok st', d') ∧
      d'.temps t.temp = some file' ∧ SegmentsKept b ranges C st' [] file') ∨
    ∃ e d', turns.foldlM (segmentStep t ranges) st d = (.err e, d') ∧
      SegmentFailed C ranges e := by
  induction turns generalizing st file d with
  | nil => exact Or.inl ⟨st, d, file, rfl, htemp, h⟩
  | cons turn turns ih =>
    rw [List.foldlM_cons, bind_apply]
    obtain ⟨st', d', file', hstep, htemp', hnext⟩ | ⟨e, d', hstep, hfailed⟩ :=
      segmentStep_kept h htiles htemp
    · rw [hstep, andThen_ok]
      exact ih hnext htemp'
    · rw [hstep]
      exact Or.inr ⟨e, d', rfl, hfailed⟩

/-! ## The transfer -/

/-- What each connection of a segmented transfer owns: ranges that tile the file, or none
where one connection would do. -/
def segments (t : Target) (connections : ℕ) : List (ℕ × ℕ) :=
  if h : max (min connections (max (t.total / SEGMENT_MIN_BYTES) 1)) 1 < 2 then []
  else segmentRanges t.total
    ((t.total + max (min connections (max (t.total / SEGMENT_MIN_BYTES) 1)) 1 - 1) /
      max (min connections (max (t.total / SEGMENT_MIN_BYTES) 1)) 1) (Target.segment_pos h) 0

theorem segments_eq {connections : ℕ}
    (h : ¬ max (min connections (max (t.total / SEGMENT_MIN_BYTES) 1)) 1 < 2) :
    segments t connections = segmentRanges t.total
      ((t.total + max (min connections (max (t.total / SEGMENT_MIN_BYTES) 1)) 1 - 1) /
        max (min connections (max (t.total / SEGMENT_MIN_BYTES) 1)) 1)
      (Target.segment_pos h) 0 :=
  dif_neg h

/-- The connections are to a mirror, each for its own range, and their turns come in any order. -/
def Mirror.Interleaves (m : Mirror b) (sourceId : Text) (first : ℕ) (ranges : List (ℕ × ℕ))
    (turns : List (ℕ × SegmentInput)) : Prop :=
  ∀ k range, ranges[k]? = some range →
    turnsOf k turns = connectionTurns range.1 (m.opensSegment sourceId (first + k) range)

/-- Every connection gets its range, each on the answer to a request of its own. -/
def Mirror.DeliversSegments (m : Mirror b) (sourceId : Text) (first : ℕ)
    (ranges : List (ℕ × ℕ)) : Prop :=
  ∀ k range, ranges[k]? = some range → m.DeliversSegment sourceId (first + k) range

/-- The whole temp is read. -/
theorem exists_readWhole {polls : ℕ → Bool} (hpolls : ∀ n, polls n = false)
    {v : StreamingVerifier} (hv : v.leafCheck = none) (file : Bytes) (reads : ℕ) :
    ∃ v', readWhole D polls v file reads = .ok v' := by
  induction v, file, reads using readWhole.induct D polls with
  | case1 v file reads hpoll =>
    rw [hpolls] at hpoll
    cases hpoll
  | case2 v file reads hpoll buf hbuf =>
    rw [readWhole, if_neg hpoll, if_pos hbuf]
    exact ⟨v, rfl⟩
  | case3 v file reads hpoll buf hbuf e hfeed =>
    rw [StreamingVerifier.feed_of_leafCheck_none hv] at hfeed
    cases hfeed
  | case4 v file reads hpoll buf hbuf v₁ hfeed ih =>
    rw [readWhole, if_neg hpoll, if_neg hbuf]
    have hnext : v₁.leafCheck = none := by
      rw [StreamingVerifier.feed_of_leafCheck_none hv] at hfeed
      cases hfeed
      exact hv
    simp only [buf] at hfeed
    rw [hfeed]
    exact ih hnext

/-- The file passes the full-file gate. -/
theorem Suits.verifyTempFull (h : Suits D t b) {polls : ℕ → Bool}
    (hpolls : ∀ n, polls n = false) {file : List Cell} (htemp : d.temps t.temp = some file)
    (hfile : bytesOf file = b) :
    ∃ hashes, Atlas.verifyTempFull D t polls d = (.ok hashes, d) ∧
      hashes.blake3 = hexEncode (D.blake3 b) ∧ hashes.sha256 = hexEncode (D.sha256 b) := by
  have hplain : Suits D { t with chunkTree := none } b :=
    ⟨h.accepted, fun tree htree => (by cases htree), h.named⟩
  obtain ⟨v, hread⟩ := exists_readWhole (D := D) hpolls (v := StreamingVerifier.new
    t.artifact.hashes t.artifact.sizeBytes none t.artifact.path) rfl (bytesOf file) 0
  have hfed := readWhole_eq_ok hread
  rw [hfile] at hfed
  obtain ⟨got, hgot, hb, hs⟩ := hplain.finish hfed
  refine ⟨got, ?_, hb, hs⟩
  unfold Atlas.verifyTempFull
  rw [bind_apply, get_apply, andThen_ok, htemp]
  dsimp only
  rw [hread, show (Except.ok v >>= StreamingVerifier.finish D) = v.finish D from rfl, hgot]
  rfl

/-- Segments put nothing on record against anybody. -/
theorem streamSegmented_nobodyHarmed (d₀ : Disk) (connections : ℕ) (run : SegmentedRun) :
    Keeps (NobodyHarmed d₀) (streamSegmented D t connections run) := by
  have hkeeps := nobodyHarmed_committing d₀
  unfold streamSegmented
  dsimp only
  split
  · exact Keeps.throw _
  · refine Keeps.bind hkeeps.presizeTemp fun _ =>
      Keeps.bind (Keeps.result (hkeeps.runSegments run _)) fun r => ?_
    cases r with
    | error e =>
      exact Keeps.bind (Keeps.whenever fun _ => hkeeps.resetSegmentedPartial)
        fun _ => Keeps.throw _
    | ok u =>
      refine Keeps.ite (Keeps.bind hkeeps.resetSegmentedPartial fun _ => Keeps.throw _) ?_
      refine Keeps.bind (Streaming.verifyTempFull _) fun hashes =>
        Keeps.bind (hkeeps.commitBlob _ _ _) fun m => ?_
      exact Keeps.bind (Keeps.modify fun d hd s => (hd s).recordResult _ true _)
        fun _ => Keeps.pure m

/-- **A segmented transfer from a mirror**, whatever the order of its turns: it commits the file
exactly if every connection gets its range, and fails otherwise, and nobody is to blame. -/
theorem Suits.streamSegmented (h : Suits D t b) (hinj : Function.Injective D.blake3)
    (hsound : CasSound D d.cache) (m : Mirror b) (first : ℕ) {connections : ℕ}
    (hn : ¬ max (min connections (max (t.total / SEGMENT_MIN_BYTES) 1)) 1 < 2)
    {run : SegmentedRun}
    (hturns : m.Interleaves t.sourceId first (segments t connections) run.turns)
    (hcancelled : run.cancelledAfter = false) (hpolls : ∀ n, run.cancelPolls n = false) :
    (m.DeliversSegments t.sourceId first (segments t connections) ∧ ∃ blob d',
      Atlas.streamSegmented D t connections run d = (.ok blob, d') ∧
        Committed D (· = b) d.cache d'.cache blob) ∨
    (¬ m.DeliversSegments t.sourceId first (segments t connections) ∧ ∃ e d',
      Atlas.streamSegmented D t connections run d = (.err e, d') ∧ e.blames = false ∧
        e ≠ .cancelled ∧ d'.cache = d.cache) := by
  have htiles : Tiles 0 b.length (segments t connections) := by
    rw [← h.total_eq]
    rw [segments_eq hn]
    exact tiles_segmentRanges _ (Nat.zero_le _)
  have hpresized := (cache_steady (c := d.cache)).presizeTemp (t := t) d rfl
  have hranges := (cache_steady (c := d.cache)).runSegments (t := t) run
    (segments t connections) (presizeTemp t d) hpresized
  -- the file is presized with holes and no connection has written: `SegmentsKept` holds at the
  -- first turn for want of any claim about bytes
  have hstart : SegmentsKept b (segments t connections)
      (fun k => ∀ range, (segments t connections)[k]? = some range →
        m.DeliversSegment t.sourceId (first + k) range)
      ⟨fun _ => false, fun _ => 0, 0, 0⟩ run.turns
      (SparseFile.setLen Cell.hole t.total ((d.temps t.temp).getD [])) := by
    refine ⟨by rw [SparseFile.length_setLen, h.total_eq], fun k range hk => ?_,
      fun k range _ i hle hlt => absurd (hlt.trans_le hle) (Nat.lt_irrefl _)⟩
    rw [hturns k range hk]
    have hsent := m.sent t.sourceId (first + k) range
    refine .waiting (hsent.of_iff ⟨fun hall => hall range hk, fun hdelivers range' hk' => ?_⟩)
    cases hk.symm.trans hk'
    exact hdelivers
  unfold Atlas.streamSegmented
  dsimp only
  rw [dif_neg hn, bind_apply, modify_apply, andThen_ok, bind_apply]
  unfold result
  rw [← segments_eq hn]
  unfold runSegments at hranges ⊢
  rw [bind_apply] at hranges ⊢
  obtain ⟨st, d₂, file, hloop, htemp, hkept⟩ | ⟨e, d₂, hloop, hfailed⟩ :=
    foldlM_segmentStep_kept htiles hstart (presizeTemp_temp t d)
  -- every connection delivered its range, and the ranges tile the blob: the file is the blob
  · obtain ⟨hall, hdone, hwhole⟩ := hkept.whole htiles
    rw [hloop] at hranges ⊢
    rw [andThen_ok, hdone, if_pos rfl] at hranges ⊢
    have hcache : d₂.cache = d.cache := hranges
    obtain ⟨hashes, hverify, hb, hs⟩ := h.verifyTempFull hpolls htemp hwhole
    obtain ⟨blob, d₃, hcommit, hcommitted⟩ :=
      h.commitBlob hinj (hcache ▸ hsound) htemp hwhole hb hs
    rw [hcache] at hcommitted
    refine Or.inl ⟨fun k range hk => hall k range hk range hk, blob,
      recordResult t.sourceId true false run.now d₃, ?_, hcommitted⟩
    dsimp only [pure_apply, andThen_ok]
    rw [hcancelled, if_neg Bool.false_ne_true, bind_apply, hverify, andThen_ok, bind_apply,
      hcommit]
    rfl
  · rw [hloop] at hranges ⊢
    refine Or.inr ⟨fun hall => ?_, e, d₂, ?_, hfailed.blameless, hfailed.uncancelled, hranges⟩
    · obtain ⟨k, range, hk, hC⟩ := hfailed.undelivered
      refine hC fun range' hk' => ?_
      cases hk.symm.trans hk'
      exact hall k range hk
    · dsimp only [andThen_err, andThen_ok]
      rw [whenever_false hfailed.uncancelled]
      rfl

/-! ## Trying a mirror -/

/-- A transfer from a mirror during which nobody interrupts and the disk works: the connections
and their turns, should the file be fetched in segments, and the visit otherwise. -/
structure MirrorTransfer (b : Bytes) extends MirrorVisit b where
  connections : ℕ
  /-- A speed cap is set. -/
  rateLimited : Bool
  /-- How many requests went to the mirror before the first connection. -/
  firstConnection : ℕ
  turns : List (ℕ × SegmentInput)
  segmentedClock : ℕ

namespace MirrorTransfer

variable (r : MirrorTransfer b) (D : Digests) (t : Target)

/-- What the engine meets while it fetches the segments, when nobody presses Pause. -/
def segmentedRun : SegmentedRun := ⟨r.turns, false, fun _ => false, r.segmentedClock⟩

/-- What trying the mirror meets, with these attempts and the mirror's settings. -/
def sourceRun (attempts : ℕ → Attempt) : SourceRun :=
  ⟨.ok (), r.connections, r.rateLimited, false, r.segmentedRun, attempts⟩

/-- Whether the file is fetched in segments first, which the store decides, as a partial
excludes it. -/
def inSegments (d : Disk) : Bool := segmentable t (r.sourceRun (r.attempts D t d)) d

/-- The store the single streams begin with: segments that fail are discarded. -/
def loopStore (d : Disk) : Disk :=
  if r.inSegments D t d then
    truncateTo t.temp 0 (streamSegmented D t r.connections r.segmentedRun d).2
  else d

/-- What trying the mirror meets, the attempts following the segmented run where there is one. -/
def run (d : Disk) : SourceRun := r.sourceRun (r.attempts D t (r.loopStore D t d))

/-- **When the transfer succeeds**: every connection gets its range, or the rest of the file
arrives at one of the attempts. -/
def Delivered (maxAttempts : ℕ) (d : Disk) : Prop :=
  (r.inSegments D t d = true ∧
    r.mirror.DeliversSegments t.sourceId r.firstConnection (segments t r.connections)) ∨
  r.Reached D t (r.loopStore D t d) (maxAttempts - 1) 0

end MirrorTransfer

theorem Unharmed.trans {sourceId : Text} {d d' d'' : Disk} (h : Unharmed sourceId d d')
    (h' : Unharmed sourceId d' d'') : Unharmed sourceId d d'' :=
  ⟨h'.failures.trans h.failures, fun hban => h.banned (h'.banned hban),
    h'.quarantine.trans h.quarantine⟩

/-- A transfer goes on from a store in which nothing was committed yet. -/
theorem MirrorSpec.of_later {d₁ : Disk} {P : Prop} {out : Exit Error BlobMeta × Disk}
    (h : MirrorSpec D t b d₁ P out) (hcache : d₁.cache = d.cache) (hharm : NobodyHarmed d d₁) :
    MirrorSpec D t b d P out := by
  cases h with
  | committed hP hcommitted hunharmed =>
    rw [hcache] at hcommitted
    exact .committed hP hcommitted fun s => (hharm s).trans (hunharmed s)
  | interrupted hP hinterrupted hunharmed =>
    exact .interrupted hP ⟨hinterrupted.blameless, hinterrupted.uncancelled,
      hinterrupted.beginning, hinterrupted.cache.trans hcache⟩
      fun s => (hharm s).trans (hunharmed s)

theorem MirrorSpec.congr {P Q : Prop} {out : Exit Error BlobMeta × Disk}
    (h : MirrorSpec D t b d P out) (hPQ : P ↔ Q) : MirrorSpec D t b d Q out := by
  rwa [propext hPQ] at h

/-- A file that is fetched in segments is worth more than one. -/
theorem MirrorTransfer.two_le_segments {r : MirrorTransfer b}
    (h : r.inSegments D t d = true) :
    ¬ max (min r.connections (max (t.total / SEGMENT_MIN_BYTES) 1)) 1 < 2 := by
  unfold MirrorTransfer.inSegments segmentable at h
  simp only [Bool.and_eq_true, decide_eq_true_eq] at h
  obtain ⟨⟨⟨⟨⟨hconnections, hsize⟩, -⟩, -⟩, -⟩, -⟩ := h
  have htwo : 2 ≤ t.total / SEGMENT_MIN_BYTES :=
    (Nat.le_div_iff_mul_le (by decide)).mpr hsize
  have hmany : 1 < r.connections := hconnections
  omega

/-- A temp that was emptied is a beginning of any file. -/
theorem beginning_truncateTo (t : Target) (b : Bytes) (d : Disk) :
    Beginning t b (truncateTo t.temp 0 d) := by
  intro file hfile
  rw [truncateTo_zero] at hfile
  dsimp only at hfile
  rw [Function.update_self] at hfile
  obtain ⟨_, -, rfl⟩ := Option.map_eq_some_iff.mp hfile
  exact List.nil_prefix

/-- **An honest mirror delivers**, or its connections break. Let a server have the file an
artifact describes; let it honour ranges or ignore them, refuse requests, and let its
connections break anywhere, with the turns of parallel connections in any order. Then trying it,
without interruptions and with a disk that works, commits the file exactly if every range of a
segmented transfer arrives or the rest of the file does in one of the attempts; what is kept
otherwise is a beginning of the file, and nothing is put on record against anybody. -/
theorem trySource_mirror (hinj : Function.Injective D.blake3) (hsound : CasSound D d.cache)
    (h : Suits D t b) (hd : Beginning t b d) (r : MirrorTransfer b)
    (hturns : r.inSegments D t d = true → r.mirror.Interleaves t.sourceId r.firstConnection
      (segments t r.connections) r.turns) (maxAttempts : ℕ) :
    MirrorSpec D t b d (r.Delivered D t maxAttempts d)
      (trySource D maxAttempts t (r.run D t d) d) := by
  have hself : NobodyHarmed d d := fun s => Unharmed.refl s d
  unfold trySource
  rw [show (r.run D t d).preflight = .ok () from rfl]
  dsimp only
  rw [bind_apply, get_apply, andThen_ok]
  rw [show segmentable t (r.run D t d) d = r.inSegments D t d from rfl]
  -- below the segment threshold, or with a partial to resume, the source is read as one stream;
  -- above it in segments first, and a failed segmented run is cut to nothing and retried as one
  -- stream
  cases hsegments : r.inSegments D t d with
  | false =>
    rw [if_neg Bool.false_ne_true]
    have hstore : r.loopStore D t d = d := by
      unfold MirrorTransfer.loopStore
      rw [hsegments, if_neg Bool.false_ne_true]
    have hattempts : (r.run D t d).attempts = r.attempts D t d := by
      rw [← congrArg (r.attempts D t) hstore]
      rfl
    have hloop := h.attemptLoop hinj hsound hattempts (maxAttempts - 1) 0 ⟨hd, rfl, hself⟩
    refine hloop.congr ⟨fun hreached => Or.inr (by rwa [hstore]), ?_⟩
    rintro (⟨htrue, -⟩ | hreached)
    · rw [hsegments] at htrue
      cases htrue
    · rwa [hstore] at hreached
  | true =>
    rw [if_pos rfl, bind_apply]
    have hharm := streamSegmented_nobodyHarmed (D := D) (t := t) d r.connections
      r.segmentedRun d hself
    rw [show (r.run D t d).segmented = r.segmentedRun from rfl,
      show (r.run D t d).connections = r.connections from rfl]
    unfold result
    obtain ⟨hdelivers, blob, d', hrun, hcommitted⟩ |
      ⟨hdelivers, e, d', hrun, hblames, hcancelled, hcache⟩ :=
      h.streamSegmented hinj hsound r.mirror r.firstConnection
        (MirrorTransfer.two_le_segments hsegments)
        (show r.mirror.Interleaves t.sourceId r.firstConnection (segments t r.connections)
          r.segmentedRun.turns from hturns hsegments) rfl fun _ => rfl
    · rw [hrun] at hharm ⊢
      exact .committed (Or.inl ⟨hsegments, hdelivers⟩) hcommitted hharm
    · have hstore : r.loopStore D t d = truncateTo t.temp 0 d' := by
        unfold MirrorTransfer.loopStore
        rw [hsegments, if_pos rfl, hrun]
      have hcache' : (r.loopStore D t d).cache = d.cache := by
        rw [hstore, truncateTo_zero]
        exact hcache
      have hharm' : NobodyHarmed d (r.loopStore D t d) := by
        rw [hrun] at hharm
        rw [hstore, truncateTo_zero]
        exact fun s => ⟨(hharm s).failures, (hharm s).banned, (hharm s).quarantine⟩
      rw [hrun, andThen_ok]
      dsimp only
      rw [if_neg hcancelled, bind_apply, modify_apply, andThen_ok, ← hstore]
      have hattempts : (r.run D t d).attempts = r.attempts D t (r.loopStore D t d) := rfl
      have hloop := h.attemptLoop hinj (hcache' ▸ hsound) hattempts (maxAttempts - 1) 0
        ⟨hstore ▸ beginning_truncateTo t b d', rfl, fun s => Unharmed.refl s _⟩
      refine (hloop.of_later hcache' hharm').congr ⟨Or.inr, ?_⟩
      rintro (⟨-, hall⟩ | hreached)
      · exact absurd hall hdelivers
      · exact hreached

end Atlas
