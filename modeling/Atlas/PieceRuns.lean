import Atlas.PieceTracker
import Atlas.Transition

/-!
# No piece is lost while a torrent downloads

A torrent that downloads has a task for each peer. A chunk that a peer sent is written under a
lock that keeps its piece from being stolen; the chunk that completes a piece takes it out of
flight, and the piece is hashed with no lock held at all. What the hash says is then noted,
and last the files of the piece are told. Between these, other peers acquire pieces, peers
die, files are selected and deselected, and the torrent is paused.

`LiveTorrent.Careful` is what it takes for the four states of a piece (had, queued, in flight,
being checked) to exclude one another: pieces that are asked for out of turn are queued, and
no piece is selected anew while it is in flight or being checked. `LiveTorrent.Settles` is
what it takes for no needed piece to be in none: that every check that is begun comes to a
verdict, and comes to it before the torrent is paused. A check that does not leaves its piece
in none of the four for as long as it stays selected (`LiveTorrent.unsettled_lost`): nobody is
asked for it again.
-/

namespace Atlas

open Finset Transition

/-- What the task of a peer is at, between one event of the torrent and the next. -/
inductive PieceTask where
  | idle
  /-- The piece was the peer's when it was looked up, and is locked while a chunk of it is
  written. -/
  | writing (index start len : ℕ)
  /-- All chunks of the piece are written, and it is being hashed. -/
  | checking (p : ℕ)
  /-- The piece is had, and its files are to be told. -/
  | reporting (p : ℕ)
  deriving DecidableEq, Repr

/-- A torrent, and the tasks of its peers. A torrent that is paused has only its bits. -/
structure LiveTorrent where
  pieces : PieceTracker
  live : Bool
  tasks : PeerHandle → PieceTask
  /-- Who holds the lock of a piece. -/
  readers : ℕ → Finset PeerHandle
  files : List FileInfo
  filePriorities : List ℕ

/-- What happens to a torrent: what peers ask for and send, what the disk answers, and what
the user changes. -/
inductive TorrentEvent where
  /-- A peer asks for a piece; some pieces are asked for out of turn. -/
  | acquire (peer : PeerHandle) (avg : Option ℕ) (priority : List ℕ) (has : ℕ → Bool)
      (env : AcquireEnv)
  /-- Data came from a peer. -/
  | receive (peer : PeerHandle) (index start len : ℕ)
  /-- The data was written. -/
  | write (peer : PeerHandle) (now : ℕ)
  /-- The data could not be written. -/
  | writeFails (peer : PeerHandle)
  /-- A piece was hashed, if it could be read. -/
  | check (peer : PeerHandle) (verdict : Option Bool)
  /-- The files of a piece that is had are told. -/
  | report (peer : PeerHandle)
  /-- A peer is gone. -/
  | die (peer : PeerHandle)
  | updateOnlyFiles (onlyFiles : ℕ → Bool)
  | pause
  | resume

namespace LiveTorrent

/-- A torrent that has some pieces, and in which some are selected. -/
def start (havePieces selectedPieces : Finset ℕ) (lengths : Lengths) (files : List FileInfo)
    (filePriorities : List ℕ) : LiveTorrent where
  pieces := .new (.new havePieces selectedPieces lengths files)
  live := true
  tasks _ := .idle
  readers _ := ∅
  files := files
  filePriorities := filePriorities

section steps

variable (peer : PeerHandle) (s : LiveTorrent)

/-- The peer's task has another state, and nothing else changes. -/
def setTask (task : PieceTask) : LiveTorrent :=
  { s with tasks := Function.update s.tasks peer task }

/-- The peer holds the lock of a piece, together with others perhaps. -/
def lock (p : ℕ) : LiveTorrent :=
  { s with readers := Function.update s.readers p (insert peer (s.readers p)) }

/-- The peer gives the lock back that it held on the piece while it wrote to it. -/
def unlock (p : ℕ) : LiveTorrent :=
  { s with readers := Function.update s.readers p ((s.readers p).erase peer) }

/-- Another account of the pieces that are in flight, with the tasks of the peers and
everything else as they were. -/
def setPieces (pieces : PieceTracker) : LiveTorrent := { s with pieces := pieces }

/-- Another account of the chunks that are there, with the pieces in flight as they were. -/
def setChunks (chunks : ChunkTracker) : LiveTorrent :=
  s.setPieces { s.pieces with chunks := chunks }

/-- What a peer asks for, with the pieces out of turn that the torrent has. -/
def request (avg : Option ℕ) (priority : List ℕ) (has : ℕ → Bool) : AcquireRequest where
  peer := peer
  peerAvgTime := avg
  priorityPieces := priority.filter (· < s.pieces.chunks.lengths.totalPieces)
  filePriorities := s.filePriorities
  fileInfos := s.files
  peerHasPiece := has
  canSteal p := s.readers p = ∅

/-- If someone stole the piece by now, the data is ignored. Otherwise it is locked. -/
def receive (index start len : ℕ) : LiveTorrent :=
  if s.live ∧ s.tasks peer = .idle ∧
      (s.pieces.inflight index).any (fun info => info.peer = peer) then
    (s.lock peer index).setTask peer (.writing index start len)
  else s

/-- A chunk was written. If it completes its piece, the piece is taken out of flight. -/
def write (now : ℕ) : LiveTorrent :=
  match s.tasks peer with
  | .writing index start len =>
    let marked := s.pieces.chunks.markChunkDownloaded index start len
    let s := (s.unlock peer index).setChunks marked.2
    if marked.1 = some .completed then
      let taken := s.pieces.takeInflight now index
      (s.setPieces taken.2).setTask peer (if taken.1.isSome then .checking index else .idle)
    else s.setTask peer .idle
  | _ => s

/-- A chunk was not written: the peer's task is idle again, and the lock is given back. -/
def writeFails : LiveTorrent :=
  match s.tasks peer with
  | .writing index _ _ => (s.unlock peer index).setTask peer .idle
  | _ => s

/-- What the hash of a piece says is noted: it is had, it is broken and wanted again, or the
check itself has failed. -/
def check (verdict : Option Bool) : LiveTorrent :=
  match s.tasks peer with
  | .checking p =>
    match verdict with
    | some true => (s.setPieces (s.pieces.markPieceHashOk p)).setTask peer (.reporting p)
    | some false => (s.setPieces (s.pieces.markPieceHashFailed p)).setTask peer .idle
    | none => s.setTask peer .idle
  | _ => s

/-- The files of a piece are told that it is had, which is what the last step of a peer's
task does after a check that succeeded. -/
def report : LiveTorrent :=
  match s.tasks peer with
  | .reporting p =>
    (s.setChunks (s.pieces.chunks.onPieceCompleted s.files p)).setTask peer .idle
  | _ => s

/-- The pieces of a peer that is gone are released; its task is over by then. -/
def die : LiveTorrent :=
  if s.live ∧ s.tasks peer = .idle then s.setPieces (s.pieces.releasePiecesOwnedBy peer).2
  else s

/-- Only the bits stay. The tasks that are still under way find nothing to note their results
in. -/
def pause : LiveTorrent :=
  { s with
    pieces := .new s.pieces.intoChunks
    live := false
    tasks := fun _ => .idle
    readers := fun _ => ∅ }

end steps

/-- What an event does; one that does not fit the peer's task, or comes when the torrent is
not live, does nothing. -/
def step (s : LiveTorrent) : TorrentEvent → LiveTorrent
  | .acquire peer avg priority has env =>
    if s.live then s.setPieces (s.pieces.acquirePiece env (s.request peer avg priority has)).2
    else s
  | .receive peer index start len => s.receive peer index start len
  | .write peer now => s.write peer now
  | .writeFails peer => s.writeFails peer
  | .check peer verdict => s.check peer verdict
  | .report peer => s.report peer
  | .die peer => s.die peer
  | .updateOnlyFiles onlyFiles =>
    s.setChunks (s.pieces.chunks.updateOnlyFiles s.files onlyFiles)
  | .pause => if s.live then s.pause else s
  | .resume => { s with live := true }

/-- What has happened to a torrent after some events, from the first to the last. -/
def run (s : LiveTorrent) (events : List TorrentEvent) : LiveTorrent := events.foldl step s

/-! ## The states of a piece -/

/-- The states a piece can be in, of which it is to be in one at a time. -/
inductive PieceState where
  | had
  | queued
  | inFlight
  | checked
  deriving DecidableEq, Repr

/-- Whether a piece is in a state, as the tracker's sets and the peers' tasks say. -/
def IsIn (s : LiveTorrent) (p : ℕ) : PieceState → Prop
  | .had => p ∈ s.pieces.chunks.have_
  | .queued => p ∈ s.pieces.chunks.queuePieces
  | .inFlight => s.pieces.inflight p ≠ none
  | .checked => ∃ peer, s.tasks peer = .checking p

/-- Pieces that are asked for out of turn are queued, unless they are had or in flight; and
what is selected anew is not in flight and not being checked. -/
def Careful (s : LiveTorrent) : TorrentEvent → Prop
  | .acquire _ _ priority _ _ => ∀ p ∈ priority, p < s.pieces.chunks.lengths.totalPieces →
      p ∉ s.pieces.chunks.have_ → s.pieces.inflight p = none → p ∈ s.pieces.chunks.queuePieces
  | .updateOnlyFiles onlyFiles => ∀ p ∈ computeSelectedPieces s.files onlyFiles,
      p ∉ s.pieces.chunks.selected → p ∉ s.pieces.chunks.have_ →
        s.pieces.inflight p = none ∧ ∀ peer, s.tasks peer ≠ .checking p
  | _ => True

/-- A check comes to a verdict, before the torrent is paused; a check that ends without one
leaves its piece in no state. -/
def Settles (s : LiveTorrent) : TorrentEvent → Prop
  | .check _ verdict => verdict ≠ none
  | .pause => ∀ peer p, s.tasks peer ≠ .checking p
  | _ => True

/-- **The states of a piece exclude one another**, and what is being written is the writer's. -/
structure Exclusive (s : LiveTorrent) : Prop where
  queued : ∀ p ∈ s.pieces.chunks.queuePieces, p ∉ s.pieces.chunks.have_
  inFlight : ∀ p info, s.pieces.inflight p = some info →
    p ∉ s.pieces.chunks.queuePieces ∧ p ∉ s.pieces.chunks.have_
  checked : ∀ peer p, s.tasks peer = .checking p →
    p ∉ s.pieces.chunks.queuePieces ∧ p ∉ s.pieces.chunks.have_ ∧ s.pieces.inflight p = none
  unique : ∀ peer peer' p, s.tasks peer = .checking p → s.tasks peer' = .checking p → peer = peer'
  written : ∀ peer p start len, s.tasks peer = .writing p start len →
    peer ∈ s.readers p ∧ ∃ info, s.pieces.inflight p = some info ∧ info.peer = peer

theorem exclusive_start (havePieces selectedPieces : Finset ℕ) (lengths : Lengths)
    (files : List FileInfo) (filePriorities : List ℕ) :
    (start havePieces selectedPieces lengths files filePriorities).Exclusive where
  queued p hp := (mem_sdiff.mp hp).2
  inFlight p info h := by cases h
  checked peer p h := by cases h
  unique peer peer' p h := by cases h
  written peer p start len h := by cases h

variable {s : LiveTorrent}

/-- A piece is in one state at most. -/
theorem Exclusive.eq_of_isIn (h : s.Exclusive) {p : ℕ} {st st' : PieceState}
    (hst : s.IsIn p st) (hst' : s.IsIn p st') : st = st' := by
  -- in flight and checked each exclude the other three by a field of their own; only had against
  -- queued is left
  have hfly {st : PieceState} (hfly : s.pieces.inflight p ≠ none) (hst : s.IsIn p st) :
      st = .inFlight := by
    obtain ⟨info, hinfo⟩ := Option.ne_none_iff_exists'.mp hfly
    obtain ⟨hqueue, hhave⟩ := h.inFlight p info hinfo
    cases st with
    | had => exact absurd hst hhave
    | queued => exact absurd hst hqueue
    | inFlight => rfl
    | checked =>
      obtain ⟨peer, hpeer⟩ := hst
      exact absurd (h.checked peer p hpeer).2.2 hfly
  have hcheck {st : PieceState} (hcheck : ∃ peer, s.tasks peer = .checking p)
      (hst : s.IsIn p st) : st = .checked := by
    obtain ⟨peer, hpeer⟩ := hcheck
    obtain ⟨hqueue, hhave, hnone⟩ := h.checked peer p hpeer
    cases st with
    | had => exact absurd hst hhave
    | queued => exact absurd hst hqueue
    | inFlight => exact absurd hnone hst
    | checked => rfl
  cases st with
  | inFlight => exact (hfly hst hst').symm
  | checked => exact (hcheck hst hst').symm
  | had =>
    cases st' with
    | had => rfl
    | queued => exact absurd hst (h.queued p hst')
    | inFlight => exact hfly hst' hst
    | checked => exact hcheck hst' hst
  | queued =>
    cases st' with
    | had => exact absurd hst' (h.queued p hst)
    | queued => rfl
    | inFlight => exact hfly hst' hst
    | checked => exact hcheck hst' hst

/-! ## Each step keeps the states apart -/

section pieces

variable {peer : PeerHandle} {p now : ℕ}

theorem Exclusive.steal (h : s.Exclusive) {info : InflightPiece}
    (hinfo : s.pieces.inflight p = some info) (hfree : s.readers p = ∅) :
    (s.setPieces (s.pieces.stealPiece now p peer)).Exclusive where
  queued := h.queued
  inFlight q info' hq := by
    by_cases hqp : q = p
    · rw [hqp]
      exact h.inFlight p info hinfo
    · exact h.inFlight q info' ((Function.update_of_ne hqp _ _).symm.trans hq)
  checked peer' q hq := by
    obtain ⟨hqueue, hhave, hnone⟩ := h.checked peer' q hq
    have hqp : q ≠ p := by
      rintro rfl
      rw [hinfo] at hnone
      cases hnone
    exact ⟨hqueue, hhave, (Function.update_of_ne hqp _ _).trans hnone⟩
  unique := h.unique
  written peer' q start len hq := by
    obtain ⟨hreads, info', hinfo', howner⟩ := h.written peer' q start len hq
    have hqp : q ≠ p := by
      rintro rfl
      rw [hfree] at hreads
      exact absurd hreads (notMem_empty _)
    exact ⟨hreads, info', (Function.update_of_ne hqp _ _).trans hinfo', howner⟩

theorem Exclusive.reserve (h : s.Exclusive) (hp : p ∈ s.pieces.chunks.queuePieces) :
    (s.setPieces (s.pieces.reservePiece now p peer)).Exclusive where
  queued q hq := h.queued q (mem_of_mem_erase hq)
  inFlight q info hq := by
    by_cases hqp : q = p
    · rw [hqp]
      exact ⟨notMem_erase p _, h.queued p hp⟩
    · obtain ⟨hqueue, hhave⟩ := h.inFlight q info ((Function.update_of_ne hqp _ _).symm.trans hq)
      exact ⟨fun hmem => hqueue (mem_of_mem_erase hmem), hhave⟩
  checked peer' q hq := by
    obtain ⟨hqueue, hhave, hnone⟩ := h.checked peer' q hq
    have hqp : q ≠ p := by
      rintro rfl
      exact hqueue hp
    exact ⟨fun hmem => hqueue (mem_of_mem_erase hmem), hhave,
      (Function.update_of_ne hqp _ _).trans hnone⟩
  unique := h.unique
  written peer' q start len hq := by
    obtain ⟨hreads, info, hinfo, howner⟩ := h.written peer' q start len hq
    have hqp : q ≠ p := by
      rintro rfl
      exact (h.inFlight q info hinfo).1 hp
    exact ⟨hreads, info, (Function.update_of_ne hqp _ _).trans hinfo, howner⟩

end pieces

/-- Acquiring a piece takes it off the queue, or from who had it and does not write. -/
theorem Exclusive.acquire (h : s.Exclusive) (peer : PeerHandle) (avg : Option ℕ)
    (priority : List ℕ) (has : ℕ → Bool) (env : AcquireEnv)
    (hcareful : s.Careful (.acquire peer avg priority has env)) :
    (s.setPieces (s.pieces.acquirePiece env (s.request peer avg priority has)).2).Exclusive := by
  obtain ⟨p, info, hinfo, -, hsteal, hnext⟩ | ⟨p, hp, hnext⟩ | hnext :=
    s.pieces.acquirePiece_cases env (s.request peer avg priority has)
  · rw [hnext]
    exact h.steal hinfo (of_decide_eq_true hsteal)
  · rw [hnext]
    obtain ⟨hpriority, hhave, hnone⟩ | ⟨hqueue, -⟩ := hp
    · obtain ⟨hmem, hlt⟩ := List.mem_filter.mp hpriority
      exact h.reserve (hcareful p hmem (of_decide_eq_true hlt) hhave hnone)
    · exact h.reserve hqueue
  · rw [hnext]
    exact h

/-- The tasks that check or write are among those there were, and the pieces are the same. -/
theorem Exclusive.of_tasks {s' : LiveTorrent} (h : s.Exclusive) (hpieces : s'.pieces = s.pieces)
    (hchecking : ∀ peer p, s'.tasks peer = .checking p → s.tasks peer = .checking p)
    (hwriting : ∀ peer p start len, s'.tasks peer = .writing p start len →
      s.tasks peer = .writing p start len ∧ peer ∈ s'.readers p) : s'.Exclusive where
  queued := hpieces ▸ h.queued
  inFlight := hpieces ▸ h.inFlight
  checked peer p hp := hpieces ▸ h.checked peer p (hchecking peer p hp)
  unique peer peer' p hp hp' :=
    h.unique peer peer' p (hchecking peer p hp) (hchecking peer' p hp')
  written peer p start len hp := by
    obtain ⟨hold, hreads⟩ := hwriting peer p start len hp
    exact ⟨hreads, hpieces ▸ (h.written peer p start len hold).2⟩

/-- A task that neither checks nor writes any more. -/
theorem Exclusive.setTask (h : s.Exclusive) (peer : PeerHandle) {task : PieceTask}
    (hchecking : ∀ p, task ≠ .checking p) (hwriting : ∀ p start len, task ≠ .writing p start len) :
    (s.setTask peer task).Exclusive := by
  refine h.of_tasks rfl (fun q p hp => ?_) fun q p start len hp => ?_
  · by_cases hq : q = peer
    · rw [hq] at hp
      exact absurd ((Function.update_self _ _ _).symm.trans hp) (hchecking p)
    · exact (Function.update_of_ne hq _ _).symm.trans hp
  · by_cases hq : q = peer
    · rw [hq] at hp
      exact absurd ((Function.update_self _ _ _).symm.trans hp) (hwriting p start len)
    · have hold : s.tasks q = .writing p start len :=
        (Function.update_of_ne hq _ _).symm.trans hp
      exact ⟨hold, (h.written q p start len hold).1⟩

theorem Exclusive.idle (h : s.Exclusive) (peer : PeerHandle) : (s.setTask peer .idle).Exclusive :=
  h.setTask peer (fun _ hp => by cases hp) fun _ _ _ hp => by cases hp

theorem Exclusive.receive (h : s.Exclusive) (peer : PeerHandle) (index start len : ℕ) :
    (s.receive peer index start len).Exclusive := by
  unfold LiveTorrent.receive
  split
  · rename_i hguard
    obtain ⟨-, hidle, howner⟩ := hguard
    obtain ⟨info, hinfo, hpeer⟩ := (Option.any_eq_true _ _).mp howner
    have hother {q : PeerHandle} (hq : q ≠ peer) :
        ((s.lock peer index).setTask peer (.writing index start len)).tasks q = s.tasks q :=
      Function.update_of_ne hq _ _
    have hself : ((s.lock peer index).setTask peer (.writing index start len)).tasks peer =
        .writing index start len := Function.update_self _ _ _
    have hchecking {q : PeerHandle} {p : ℕ}
        (hq : ((s.lock peer index).setTask peer (.writing index start len)).tasks q =
          .checking p) : s.tasks q = .checking p := by
      by_cases hqp : q = peer
      · rw [hqp, hself] at hq
        cases hq
      · rwa [hother hqp] at hq
    have hlocked {q : PeerHandle} {p : ℕ} (hq : q ∈ s.readers p) :
        q ∈ (s.lock peer index).readers p := by
      show q ∈ Function.update s.readers index _ p
      by_cases hp : p = index
      · rw [hp, Function.update_self]
        exact mem_insert_of_mem (hp ▸ hq)
      · rwa [Function.update_of_ne hp]
    refine ⟨h.queued, h.inFlight, fun q p hq => h.checked q p (hchecking hq),
      fun q q' p hq hq' => h.unique q q' p (hchecking hq) (hchecking hq'),
      fun q p start' len' hq => ?_⟩
    by_cases hqp : q = peer
    · rw [hqp, hself] at hq
      cases hq
      refine ⟨?_, info, hinfo, (of_decide_eq_true hpeer).trans hqp.symm⟩
      show q ∈ Function.update s.readers index _ index
      rw [Function.update_self, hqp]
      exact mem_insert_self _ _
    · rw [hother hqp] at hq
      obtain ⟨hreads, hrest⟩ := h.written q p start' len' hq
      exact ⟨hlocked hreads, hrest⟩
  · exact h

/-- A writer that is done unlocks its piece. -/
theorem Exclusive.unlock (h : s.Exclusive) {peer : PeerHandle} {index : ℕ} {task : PieceTask}
    (hchecking : ∀ p, task ≠ .checking p)
    (hwriting : ∀ p start len, task ≠ .writing p start len) :
    ((s.unlock peer index).setTask peer task).Exclusive := by
  refine (h.setTask peer hchecking hwriting).of_tasks rfl (fun _ _ hp => hp)
    fun q p start len hp => ⟨hp, ?_⟩
  have hq : q ≠ peer := by
    rintro rfl
    exact hwriting p start len ((Function.update_self _ _ _).symm.trans hp)
  have hreads := (h.written q p start len ((Function.update_of_ne hq _ _).symm.trans hp)).1
  show q ∈ Function.update s.readers index _ p
  by_cases hpi : p = index
  · rw [hpi, Function.update_self]
    exact mem_erase.mpr ⟨hq, hpi ▸ hreads⟩
  · rwa [Function.update_of_ne hpi]

/-- The bits that decide are the same. -/
theorem Exclusive.setChunks (h : s.Exclusive) {c : ChunkTracker}
    (hqueue : c.queuePieces = s.pieces.chunks.queuePieces)
    (hhave : c.have_ = s.pieces.chunks.have_) : (s.setChunks c).Exclusive where
  queued p hp := by
    have hp : p ∈ c.queuePieces := hp
    rw [hqueue] at hp
    show p ∉ c.have_
    rw [hhave]
    exact h.queued p hp
  inFlight p info hp := by
    show p ∉ c.queuePieces ∧ p ∉ c.have_
    rw [hqueue, hhave]
    exact h.inFlight p info hp
  checked peer p hp := by
    show p ∉ c.queuePieces ∧ p ∉ c.have_ ∧ _
    rw [hqueue, hhave]
    exact h.checked peer p hp
  unique := h.unique
  written := h.written

/-- The piece a writer completed is taken out of flight and checked by the writer alone. -/
theorem Exclusive.taken (h : s.Exclusive) (peer : PeerHandle) {index start len : ℕ} (now : ℕ)
    (hpeer : s.tasks peer = .writing index start len) :
    (((s.unlock peer index).setPieces (s.pieces.takeInflight now index).2).setTask peer
      (.checking index)).Exclusive := by
  obtain ⟨-, info, hinfo, howner⟩ := h.written peer index start len hpeer
  obtain ⟨hqueue, hhave⟩ := h.inFlight index info hinfo
  have hother {q : PeerHandle} (hq : q ≠ peer) :
      (((s.unlock peer index).setPieces (s.pieces.takeInflight now index).2).setTask peer
        (.checking index)).tasks q = s.tasks q := Function.update_of_ne hq _ _
  have hnone : (s.pieces.takeInflight now index).2.inflight index = none :=
    Function.update_self _ _ _
  have hfly {p : ℕ} (hp : p ≠ index) :
      (s.pieces.takeInflight now index).2.inflight p = s.pieces.inflight p :=
    Function.update_of_ne hp _ _
  -- who else checks, checks another piece: this one is in flight
  have hne {q : PeerHandle} {p : ℕ} (hq : q ≠ peer)
      (hqp : (((s.unlock peer index).setPieces (s.pieces.takeInflight now index).2).setTask peer
        (.checking index)).tasks q = .checking p) : p ≠ index := by
    rintro rfl
    rw [hother hq] at hqp
    have hempty := (h.checked q p hqp).2.2
    rw [hinfo] at hempty
    cases hempty
  refine ⟨h.queued, fun p info' hp => ?_, fun q p hq => ?_, fun q q' p hq hq' => ?_,
    fun q p start' len' hq => ?_⟩
  · have hp : (s.pieces.takeInflight now index).2.inflight p = some info' := hp
    by_cases hpi : p = index
    · rw [hpi, hnone] at hp
      cases hp
    · exact h.inFlight p info' ((hfly hpi).symm.trans hp)
  · by_cases hqp : q = peer
    · rw [hqp] at hq
      cases (Function.update_self _ _ _).symm.trans hq
      exact ⟨hqueue, hhave, hnone⟩
    · have hpi := hne hqp hq
      obtain ⟨hqueue', hhave', hempty⟩ := h.checked q p ((hother hqp).symm.trans hq)
      exact ⟨hqueue', hhave', (hfly hpi).trans hempty⟩
  · by_cases hqp : q = peer
    · rw [hqp] at hq
      have hindex := PieceTask.checking.inj ((Function.update_self _ _ _).symm.trans hq)
      by_cases hqp' : q' = peer
      · exact hqp.trans hqp'.symm
      · exact absurd hindex.symm (hne hqp' hq')
    · have hpi := hne hqp hq
      by_cases hqp' : q' = peer
      · rw [hqp'] at hq'
        exact absurd (PieceTask.checking.inj ((Function.update_self _ _ _).symm.trans hq')).symm
          hpi
      · exact h.unique q q' p ((hother hqp).symm.trans hq) ((hother hqp').symm.trans hq')
  · have hqp : q ≠ peer := by
      rintro rfl
      cases (Function.update_self _ _ _).symm.trans hq
    obtain ⟨hreads, info', hinfo', howner'⟩ :=
      h.written q p start' len' ((hother hqp).symm.trans hq)
    have hpi : p ≠ index := by
      rintro rfl
      rw [hinfo] at hinfo'
      cases hinfo'
      exact hqp (howner'.symm.trans howner)
    refine ⟨?_, info', (hfly hpi).trans hinfo', howner'⟩
    show q ∈ Function.update s.readers index _ p
    rwa [Function.update_of_ne hpi]

theorem Exclusive.write (h : s.Exclusive) (peer : PeerHandle) (now : ℕ) :
    (s.write peer now).Exclusive := by
  unfold LiveTorrent.write
  split
  · rename_i index start len hpeer
    have hqueue := ChunkTracker.queue_markChunkDownloaded (t := s.pieces.chunks) index start len
    have hhave := (ChunkTracker.counts_markChunkDownloaded (t := s.pieces.chunks)
      index start len).have_
    have hmarked := h.setChunks hqueue hhave
    dsimp only
    split
    · obtain ⟨-, info, hinfo, -⟩ := h.written peer index start len hpeer
      have hsome : (PieceTracker.takeInflight now index
          { s.pieces with chunks :=
            (s.pieces.chunks.markChunkDownloaded index start len).2 }).1.isSome = true := by
        unfold PieceTracker.takeInflight
        rw [Option.isSome_map, hinfo]
        rfl
      have htaken := hmarked.taken peer now hpeer
      show ((_ : LiveTorrent).setTask peer (if (PieceTracker.takeInflight now index
          { s.pieces with chunks :=
            (s.pieces.chunks.markChunkDownloaded index start len).2 }).1.isSome then _
        else _)).Exclusive
      rw [hsome]
      exact htaken
    · exact hmarked.unlock (fun _ hp => by cases hp) fun _ _ _ hp => by cases hp
  · exact h

theorem Exclusive.writeFails (h : s.Exclusive) (peer : PeerHandle) :
    (s.writeFails peer).Exclusive := by
  unfold LiveTorrent.writeFails
  split
  · exact h.unlock (fun _ hp => by cases hp) fun _ _ _ hp => by cases hp
  · exact h

/-- What the only task that checks a piece notes of it bears on no other piece. -/
theorem Exclusive.settle (h : s.Exclusive) {peer : PeerHandle} {p : ℕ}
    (hpeer : s.tasks peer = .checking p) {c : ChunkTracker} {task : PieceTask}
    (hqueue : ∀ q, q ≠ p → q ∈ c.queuePieces → q ∈ s.pieces.chunks.queuePieces)
    (hhave : ∀ q, q ≠ p → q ∈ c.have_ → q ∈ s.pieces.chunks.have_)
    (hp : p ∈ c.queuePieces → p ∉ c.have_) (hchecking : ∀ q, task ≠ .checking q)
    (hwriting : ∀ q start len, task ≠ .writing q start len) :
    ((s.setChunks c).setTask peer task).Exclusive := by
  have hother {peer' : PeerHandle} {task' : PieceTask} (hne : task ≠ task')
      (hq : ((s.setChunks c).setTask peer task).tasks peer' = task') :
      peer' ≠ peer ∧ s.tasks peer' = task' := by
    have hpeer' : peer' ≠ peer := by
      rintro rfl
      exact hne ((Function.update_self _ _ _).symm.trans hq)
    exact ⟨hpeer', (Function.update_of_ne hpeer' _ _).symm.trans hq⟩
  refine ⟨fun q hq => ?_, fun q info hq => ?_, fun peer' q hq => ?_,
    fun peer' peer'' q hq hq' => ?_, fun peer' q start len hq => ?_⟩
  · by_cases hqp : q = p
    · exact hqp ▸ hp (hqp ▸ hq)
    · exact fun hmem => h.queued q (hqueue q hqp hq) (hhave q hqp hmem)
  · have hqp : q ≠ p := by
      rintro rfl
      cases (h.checked peer q hpeer).2.2.symm.trans hq
    obtain ⟨hold, hnot⟩ := h.inFlight q info hq
    exact ⟨fun hmem => hold (hqueue q hqp hmem), fun hmem => hnot (hhave q hqp hmem)⟩
  · obtain ⟨hne, hq⟩ := hother (hchecking q) hq
    have hqp : q ≠ p := by
      rintro rfl
      exact hne (h.unique peer' peer q hq hpeer)
    obtain ⟨hold, hnot, hnone⟩ := h.checked peer' q hq
    exact ⟨fun hmem => hold (hqueue q hqp hmem), fun hmem => hnot (hhave q hqp hmem), hnone⟩
  · exact h.unique peer' peer'' q (hother (hchecking q) hq).2 (hother (hchecking q) hq').2
  · exact h.written peer' q start len (hother (hwriting q start len) hq).2

theorem Exclusive.check (h : s.Exclusive) (peer : PeerHandle) (verdict : Option Bool) :
    (s.check peer verdict).Exclusive := by
  unfold LiveTorrent.check
  split
  · rename_i p hpeer
    obtain ⟨hqueue, hhave, -⟩ := h.checked peer p hpeer
    split
    · have hsame := ChunkTracker.queue_markPieceDownloaded (t := s.pieces.chunks) (p := p)
      have hnext := ChunkTracker.have_markPieceDownloaded (t := s.pieces.chunks) (p := p)
      refine h.settle hpeer (fun q _ hq => hsame ▸ hq) (fun q hqp hq => ?_)
        (fun hp => absurd (hsame ▸ hp) hqueue) (fun q hq => by cases hq)
        fun q start len hq => by cases hq
      rw [hnext] at hq
      exact (mem_insert.mp hq).resolve_left hqp
    · have hsame := (ChunkTracker.counts_markPieceBrokenIfNotHave
        (t := s.pieces.chunks) (p := p)).have_
      refine h.settle hpeer (fun q hqp hq => ?_) (fun q _ hq => hsame ▸ hq)
        (fun _ hp => hhave (hsame ▸ hp)) (fun q hq => by cases hq)
        fun q start len hq => by cases hq
      exact (ChunkTracker.mem_queue_markPieceBroken.mp hq).resolve_right fun hand => hqp hand.1
    · exact h.idle peer
  · exact h

theorem Exclusive.report (h : s.Exclusive) (peer : PeerHandle) : (s.report peer).Exclusive := by
  unfold LiveTorrent.report
  split
  · exact (h.setChunks (ChunkTracker.queue_onPieceCompleted _)
      (ChunkTracker.counts_onPieceCompleted _).have_).idle peer
  · exact h

theorem Exclusive.die (h : s.Exclusive) (peer : PeerHandle) : (s.die peer).Exclusive := by
  unfold LiveTorrent.die
  split
  · rename_i hguard
    obtain ⟨-, hidle⟩ := hguard
    have hhave := (PieceTracker.counts_releasePiecesOwnedBy (t := s.pieces) peer).have_
    -- what the dead peer had in flight goes back to the queue, and nothing else changes its state
    refine ⟨fun q hq => ?_, fun q info hq => ?_, fun peer' q hq => ?_, h.unique,
      fun peer' q start len hq => ?_⟩
    · show q ∉ (s.pieces.releasePiecesOwnedBy peer).2.chunks.have_
      rw [hhave]
      obtain hq | ⟨-, hq⟩ := PieceTracker.mem_queue_releasePiecesOwnedBy.mp hq
      · exact h.queued q hq
      · exact hq
    · have hq : (s.pieces.releasePiecesOwnedBy peer).2.inflight q = some info := hq
      rw [PieceTracker.inflight_releasePiecesOwnedBy] at hq
      split at hq
      · cases hq
      · rename_i hkept
        obtain ⟨hqueue, hnot⟩ := h.inFlight q info hq
        refine ⟨fun hmem => ?_, ?_⟩
        · obtain hmem | ⟨howned, -⟩ := PieceTracker.mem_queue_releasePiecesOwnedBy.mp hmem
          · exact hqueue hmem
          · exact hkept howned
        · show q ∉ (s.pieces.releasePiecesOwnedBy peer).2.chunks.have_
          rwa [hhave]
    · obtain ⟨hqueue, hnot, hnone⟩ := h.checked peer' q hq
      refine ⟨fun hmem => ?_, ?_, ?_⟩
      · obtain hmem | ⟨⟨-, info, hinfo, -⟩, -⟩ :=
          PieceTracker.mem_queue_releasePiecesOwnedBy.mp hmem
        · exact hqueue hmem
        · rw [hnone] at hinfo
          cases hinfo
      · show q ∉ (s.pieces.releasePiecesOwnedBy peer).2.chunks.have_
        rwa [hhave]
      · show (s.pieces.releasePiecesOwnedBy peer).2.inflight q = none
        rw [PieceTracker.inflight_releasePiecesOwnedBy, hnone, ite_self]
    · obtain ⟨hreads, info, hinfo, howner⟩ := h.written peer' q start len hq
      refine ⟨hreads, info, ?_, howner⟩
      show (s.pieces.releasePiecesOwnedBy peer).2.inflight q = some info
      rw [PieceTracker.inflight_releasePiecesOwnedBy, if_neg, hinfo]
      rintro ⟨-, info', hinfo', hpeer⟩
      rw [hinfo] at hinfo'
      cases hinfo'
      rw [← hpeer, howner] at hidle
      cases hidle.symm.trans hq
  · exact h

theorem Exclusive.updateOnlyFiles (h : s.Exclusive) (onlyFiles : ℕ → Bool)
    (hcareful : s.Careful (.updateOnlyFiles onlyFiles)) :
    (s.setChunks (s.pieces.chunks.updateOnlyFiles s.files onlyFiles)).Exclusive := by
  have hhave := ChunkTracker.have_updateOnlyFiles (t := s.pieces.chunks) s.files onlyFiles
  have hqueue {q : ℕ}
      (hq : q ∈ (s.pieces.chunks.updateOnlyFiles s.files onlyFiles).queuePieces) :
      q ∈ s.pieces.chunks.queuePieces ∨ q ∉ s.pieces.chunks.have_ ∧
        s.pieces.inflight q = none ∧ ∀ peer, s.tasks peer ≠ .checking q := by
    obtain ⟨hold | ⟨-, hselected, hnew, hnot⟩, -⟩ :=
      (ChunkTracker.mem_queue_updateOnlyFiles _ _).mp hq
    · exact .inl hold
    · exact .inr ⟨hnot, hcareful q hselected hnew hnot⟩
  refine ⟨fun q hq => ?_, fun q info hq => ?_, fun peer q hq => ?_, h.unique, h.written⟩
  · show q ∉ (s.pieces.chunks.updateOnlyFiles s.files onlyFiles).have_
    rw [hhave]
    obtain hold | ⟨hnot, -⟩ := hqueue hq
    · exact h.queued q hold
    · exact hnot
  · obtain ⟨hold, hnot⟩ := h.inFlight q info hq
    refine ⟨fun hmem => ?_, ?_⟩
    · obtain hmem | ⟨-, hnone, -⟩ := hqueue hmem
      · exact hold hmem
      · exact absurd (hnone.symm.trans hq) (by rintro ⟨⟩)
    · show q ∉ (s.pieces.chunks.updateOnlyFiles s.files onlyFiles).have_
      rwa [hhave]
  · obtain ⟨hold, hnot, hnone⟩ := h.checked peer q hq
    refine ⟨fun hmem => ?_, ?_, hnone⟩
    · obtain hmem | ⟨-, -, hidle⟩ := hqueue hmem
      · exact hold hmem
      · exact hidle peer hq
    · show q ∉ (s.pieces.chunks.updateOnlyFiles s.files onlyFiles).have_
      rwa [hhave]

theorem Exclusive.pause (h : s.Exclusive) : s.pause.Exclusive := by
  refine ⟨fun q hq => ?_, fun q info hq => ?_, fun peer q hq => ?_, fun peer peer' q hq => ?_,
    fun peer q start len hq => ?_⟩
  · show q ∉ s.pieces.intoChunks.have_
    rw [PieceTracker.counts_intoChunks.have_]
    obtain hq | ⟨-, hq⟩ := PieceTracker.mem_queue_intoChunks.mp hq
    · exact h.queued q hq
    · exact hq
  · cases hq
  · cases hq
  · cases hq
  · cases hq

/-- **A step that meets the condition keeps the states apart.** -/
theorem Exclusive.step (h : s.Exclusive) {e : TorrentEvent} (hcareful : s.Careful e) :
    (s.step e).Exclusive := by
  cases e with
  | acquire peer avg priority has env =>
    unfold LiveTorrent.step
    dsimp only
    split
    · exact h.acquire peer avg priority has env hcareful
    · exact h
  | receive peer index start len => exact h.receive peer index start len
  | write peer now => exact h.write peer now
  | writeFails peer => exact h.writeFails peer
  | check peer verdict => exact h.check peer verdict
  | report peer => exact h.report peer
  | die peer => exact h.die peer
  | updateOnlyFiles onlyFiles => exact h.updateOnlyFiles onlyFiles hcareful
  | pause =>
    unfold LiveTorrent.step
    dsimp only
    split
    · exact h.pause
    · exact h
  | resume => exact ⟨h.queued, h.inFlight, h.checked, h.unique, h.written⟩

/-! ## Each step keeps what is needed -/

/-- **Every selected piece is in some state**, so that none is forgotten. -/
def Kept (s : LiveTorrent) : Prop :=
  ∀ p < s.pieces.chunks.lengths.totalPieces, p ∈ s.pieces.chunks.selected → ∃ st, s.IsIn p st

theorem kept_start (havePieces selectedPieces : Finset ℕ) (lengths : Lengths)
    (files : List FileInfo) (filePriorities : List ℕ) :
    (start havePieces selectedPieces lengths files filePriorities).Kept := by
  intro p _ hp
  by_cases hhave : p ∈ havePieces
  · exact ⟨.had, hhave⟩
  · exact ⟨.queued, mem_sdiff.mpr ⟨hp, hhave⟩⟩

/-- The task of another peer is what it was. -/
theorem tasks_setTask_of_ne {peer peer' : PeerHandle} (hne : peer' ≠ peer) (task : PieceTask) :
    (s.setTask peer task).tasks peer' = s.tasks peer' := Function.update_of_ne hne _ _

theorem tasks_setTask_self (peer : PeerHandle) (task : PieceTask) :
    (s.setTask peer task).tasks peer = task := Function.update_self _ _ _

/-- What is selected, and how many pieces there are: both are the same before and after. -/
def Selects (s s' : LiveTorrent) : Prop :=
  s'.pieces.chunks.selected = s.pieces.chunks.selected ∧
    s'.pieces.chunks.lengths = s.pieces.chunks.lengths

theorem Kept.of_isIn {s' : LiveTorrent} (h : s.Kept) (hselects : s.Selects s')
    (hin : ∀ p < s.pieces.chunks.lengths.totalPieces, ∀ st, s.IsIn p st → ∃ st, s'.IsIn p st) :
    s'.Kept := by
  intro p hlt hp
  rw [hselects.2] at hlt
  rw [hselects.1] at hp
  obtain ⟨st, hst⟩ := h p hlt hp
  exact hin p hlt st hst

/-- The task of a peer that does not check changes, and the pieces are the same. -/
theorem isIn_of_task {s' : LiveTorrent} (hpieces : s'.pieces = s.pieces) (peer : PeerHandle)
    (htasks : ∀ peer', peer' ≠ peer → s'.tasks peer' = s.tasks peer')
    (hpeer : ∀ p, s.tasks peer ≠ .checking p) {p : ℕ} {st : PieceState} (h : s.IsIn p st) :
    s'.IsIn p st := by
  cases st with
  | had => exact (congrArg (p ∈ ·.chunks.have_) hpieces).mpr h
  | queued => exact (congrArg (p ∈ ·.chunks.queuePieces) hpieces).mpr h
  | inFlight => exact (congrArg (fun t : PieceTracker => t.inflight p ≠ none) hpieces).mpr h
  | checked =>
    obtain ⟨peer', hchecking⟩ := h
    have hne : peer' ≠ peer := by
      rintro rfl
      exact hpeer p hchecking
    exact ⟨peer', (htasks peer' hne).trans hchecking⟩

theorem Kept.acquire (h : s.Kept) (peer : PeerHandle) (avg : Option ℕ) (priority : List ℕ)
    (has : ℕ → Bool) (env : AcquireEnv) :
    (s.setPieces (s.pieces.acquirePiece env (s.request peer avg priority has)).2).Kept := by
  have hfly {p q : ℕ} {info : InflightPiece} (hq : s.pieces.inflight q ≠ none) :
      Function.update s.pieces.inflight p (some info) q ≠ none := by
    by_cases hqp : q = p
    · rw [hqp, Function.update_self]
      rintro ⟨⟩
    · rwa [Function.update_of_ne hqp]
  obtain ⟨p, info, -, -, -, hnext⟩ | ⟨p, -, hnext⟩ | hnext :=
    s.pieces.acquirePiece_cases env (s.request peer avg priority has)
  · rw [hnext]
    refine h.of_isIn ⟨rfl, rfl⟩ fun q _ st hst => ⟨st, ?_⟩
    cases st with
    | inFlight => exact hfly hst
    | _ => exact hst
  · rw [hnext]
    refine h.of_isIn ⟨rfl, rfl⟩ fun q _ st hst => ?_
    cases st with
    | had => exact ⟨.had, hst⟩
    | inFlight => exact ⟨.inFlight, hfly hst⟩
    | checked => exact ⟨.checked, hst⟩
    | queued =>
      by_cases hqp : q = p
      · refine ⟨.inFlight, ?_⟩
        show Function.update s.pieces.inflight p _ q ≠ none
        rw [hqp, Function.update_self]
        rintro ⟨⟩
      · exact ⟨.queued, mem_erase.mpr ⟨hqp, hst⟩⟩
  · rw [hnext]
    exact h

theorem Kept.receive (h : s.Kept) (peer : PeerHandle) (index start len : ℕ) :
    (s.receive peer index start len).Kept := by
  unfold LiveTorrent.receive
  split
  · rename_i hguard
    refine h.of_isIn ⟨rfl, rfl⟩ fun q _ st hst => ⟨st, ?_⟩
    refine isIn_of_task (s := s) ?_ peer (fun peer' hne => ?_) (fun p hp => ?_) hst
    · rfl
    · exact tasks_setTask_of_ne hne _
    · cases hguard.2.1.symm.trans hp
  · exact h

theorem Kept.write (h : s.Kept) (peer : PeerHandle) (now : ℕ) : (s.write peer now).Kept := by
  unfold LiveTorrent.write
  split
  · rename_i index start len hpeer
    have hcounts := ChunkTracker.counts_markChunkDownloaded (t := s.pieces.chunks)
      index start len
    have hqueue := ChunkTracker.queue_markChunkDownloaded (t := s.pieces.chunks) index start len
    have hother {s' : LiveTorrent} (htasks : s'.tasks = s.tasks) {task : PieceTask} {q : ℕ}
        (hq : s.IsIn q .checked) : (s'.setTask peer task).IsIn q .checked := by
      obtain ⟨peer', hchecking⟩ := hq
      have hne : peer' ≠ peer := by
        rintro rfl
        cases hpeer.symm.trans hchecking
      exact ⟨peer', (tasks_setTask_of_ne hne _).trans (htasks ▸ hchecking)⟩
    dsimp only
    split
    · refine h.of_isIn ⟨hcounts.selected, hcounts.lengths⟩ fun q _ st hst => ?_
      cases st with
      | had => exact ⟨.had, hcounts.mem_have.mpr hst⟩
      | queued => exact ⟨.queued, (congrArg (q ∈ ·) hqueue).mpr hst⟩
      | checked => exact ⟨.checked, hother rfl hst⟩
      | inFlight =>
        by_cases hqi : q = index
        · refine ⟨.checked, peer, (tasks_setTask_self peer _).trans ?_⟩
          have hsome : (PieceTracker.takeInflight now index ((s.unlock peer index).setChunks
              (s.pieces.chunks.markChunkDownloaded index start len).2).pieces).1.isSome =
                true := by
            obtain ⟨info, hinfo⟩ := Option.ne_none_iff_exists'.mp (hqi ▸ hst)
            have hinfo : s.pieces.inflight index = some info := hinfo
            show ((s.pieces.inflight index).map _).isSome = true
            rw [hinfo]
            rfl
          rw [if_pos hsome, hqi]
        · refine ⟨.inFlight, ?_⟩
          show Function.update s.pieces.inflight index none q ≠ none
          rwa [Function.update_of_ne hqi]
    · refine h.of_isIn ⟨hcounts.selected, hcounts.lengths⟩ fun q _ st hst => ⟨st, ?_⟩
      cases st with
      | had => exact hcounts.mem_have.mpr hst
      | queued => exact (congrArg (q ∈ ·) hqueue).mpr hst
      | checked => exact hother rfl hst
      | inFlight => exact hst
  · exact h

theorem Kept.writeFails (h : s.Kept) (peer : PeerHandle) : (s.writeFails peer).Kept := by
  unfold LiveTorrent.writeFails
  split
  · rename_i hpeer
    refine h.of_isIn ⟨rfl, rfl⟩ fun q _ st hst => ⟨st, ?_⟩
    refine isIn_of_task (s := s) ?_ peer (fun peer' hne => ?_) (fun p hp => ?_) hst
    · rfl
    · exact tasks_setTask_of_ne hne _
    · cases hpeer.symm.trans hp
  · exact h

/-- **A verdict puts the piece where it belongs**: among those had, or back in the queue. -/
theorem Kept.check (h : s.Kept) (peer : PeerHandle) {verdict : Option Bool}
    (hverdict : verdict ≠ none) : (s.check peer verdict).Kept := by
  unfold LiveTorrent.check
  split
  · rename_i p hpeer
    -- another piece under check has another peer's task
    have hother {s' : LiveTorrent} (htasks : s'.tasks = s.tasks) {task : PieceTask} {q : ℕ}
        (hqp : q ≠ p) (hq : s.IsIn q .checked) : (s'.setTask peer task).IsIn q .checked := by
      obtain ⟨peer', hchecking⟩ := hq
      have hne : peer' ≠ peer := by
        rintro rfl
        exact hqp (PieceTask.checking.inj (hchecking.symm.trans hpeer))
      exact ⟨peer', (tasks_setTask_of_ne hne _).trans (htasks ▸ hchecking)⟩
    split
    · have hhave := ChunkTracker.have_markPieceDownloaded (t := s.pieces.chunks) (p := p)
      have hqueue := ChunkTracker.queue_markPieceDownloaded (t := s.pieces.chunks) (p := p)
      refine h.of_isIn ⟨ChunkTracker.selected_markPieceDownloaded,
        ChunkTracker.lengths_markPieceDownloaded⟩ fun q _ st hst => ?_
      by_cases hqp : q = p
      · refine ⟨.had, ?_⟩
        show q ∈ (s.pieces.chunks.markPieceDownloaded p).have_
        rw [hhave, hqp]
        exact mem_insert_self p _
      · refine ⟨st, ?_⟩
        cases st with
        | had =>
          show q ∈ (s.pieces.chunks.markPieceDownloaded p).have_
          rw [hhave]
          exact mem_insert_of_mem hst
        | queued => exact (congrArg (q ∈ ·) hqueue).mpr hst
        | inFlight => exact hst
        | checked => exact hother rfl hqp hst
    -- a failed check queues its piece again unless it is had
    · have hcounts := ChunkTracker.counts_markPieceBrokenIfNotHave
        (t := s.pieces.chunks) (p := p)
      refine h.of_isIn ⟨hcounts.selected, hcounts.lengths⟩ fun q _ st hst => ?_
      by_cases hhave : q ∈ s.pieces.chunks.have_
      · exact ⟨.had, hcounts.mem_have.mpr hhave⟩
      · by_cases hqp : q = p
        · exact ⟨.queued, ChunkTracker.mem_queue_markPieceBroken.mpr
            (.inr ⟨hqp, hqp ▸ hhave⟩)⟩
        · refine ⟨st, ?_⟩
          cases st with
          | had => exact absurd hst hhave
          | queued => exact ChunkTracker.mem_queue_markPieceBroken.mpr (.inl hst)
          | inFlight => exact hst
          | checked => exact hother rfl hqp hst
    · exact absurd rfl hverdict
  · exact h

theorem Kept.report (h : s.Kept) (peer : PeerHandle) : (s.report peer).Kept := by
  unfold LiveTorrent.report
  split
  · rename_i p hpeer
    have hcounts := ChunkTracker.counts_onPieceCompleted (t := s.pieces.chunks) (p := p) s.files
    have hqueue := ChunkTracker.queue_onPieceCompleted (t := s.pieces.chunks) (p := p) s.files
    refine h.of_isIn ⟨hcounts.selected, hcounts.lengths⟩ fun q _ st hst => ⟨st, ?_⟩
    cases st with
    | had => exact hcounts.mem_have.mpr hst
    | queued => exact (congrArg (q ∈ ·) hqueue).mpr hst
    | inFlight => exact hst
    | checked =>
      obtain ⟨peer', hchecking⟩ := hst
      have hne : peer' ≠ peer := by
        rintro rfl
        cases hpeer.symm.trans hchecking
      exact ⟨peer', (tasks_setTask_of_ne hne _).trans hchecking⟩
  · exact h

theorem Kept.die (h : s.Kept) (peer : PeerHandle) : (s.die peer).Kept := by
  unfold LiveTorrent.die
  split
  · have hcounts := PieceTracker.counts_releasePiecesOwnedBy (t := s.pieces) peer
    refine h.of_isIn ⟨hcounts.selected, hcounts.lengths⟩ fun q hlt st hst => ?_
    by_cases hhave : q ∈ s.pieces.chunks.have_
    · exact ⟨.had, hcounts.mem_have.mpr hhave⟩
    · cases st with
      | had => exact absurd hst hhave
      | queued => exact ⟨.queued, PieceTracker.mem_queue_releasePiecesOwnedBy.mpr (.inl hst)⟩
      | checked => exact ⟨.checked, hst⟩
      | inFlight =>
        by_cases howned : q < s.pieces.chunks.lengths.totalPieces ∧
            ∃ info, s.pieces.inflight q = some info ∧ info.peer = peer
        · exact ⟨.queued, PieceTracker.mem_queue_releasePiecesOwnedBy.mpr
            (.inr ⟨howned, hhave⟩)⟩
        · refine ⟨.inFlight, ?_⟩
          show (s.pieces.releasePiecesOwnedBy peer).2.inflight q ≠ none
          rwa [PieceTracker.inflight_releasePiecesOwnedBy, if_neg howned]
  · exact h

theorem Kept.updateOnlyFiles (h : s.Kept) (onlyFiles : ℕ → Bool) :
    (s.setChunks (s.pieces.chunks.updateOnlyFiles s.files onlyFiles)).Kept := by
  intro p hlt hp
  replace hlt : p < (s.pieces.chunks.updateOnlyFiles s.files onlyFiles).lengths.totalPieces := hlt
  replace hp : p ∈ (s.pieces.chunks.updateOnlyFiles s.files onlyFiles).selected := hp
  rw [ChunkTracker.lengths_updateOnlyFiles] at hlt
  rw [ChunkTracker.selected_updateOnlyFiles] at hp
  by_cases hhave : p ∈ s.pieces.chunks.have_
  · exact ⟨.had, (congrArg (p ∈ ·) (ChunkTracker.have_updateOnlyFiles s.files onlyFiles)).mpr hhave⟩
  · by_cases hold : p ∈ s.pieces.chunks.selected
    · obtain ⟨st, hst⟩ := h p hlt hold
      refine ⟨st, ?_⟩
      cases st with
      | had => exact absurd hst hhave
      | queued =>
        exact (ChunkTracker.mem_queue_updateOnlyFiles _ _).mpr ⟨.inl hst, .inl hp⟩
      | inFlight => exact hst
      | checked => exact hst
    · exact ⟨.queued, (ChunkTracker.mem_queue_updateOnlyFiles _ _).mpr
        ⟨.inr ⟨hlt, hp, hold, hhave⟩, .inl hp⟩⟩

theorem Kept.pause (h : s.Kept) (hsettles : s.Settles .pause) : s.pause.Kept := by
  have hcounts := PieceTracker.counts_intoChunks (t := s.pieces)
  refine h.of_isIn ⟨hcounts.selected, hcounts.lengths⟩ fun q hlt st hst => ?_
  by_cases hhave : q ∈ s.pieces.chunks.have_
  · exact ⟨.had, hcounts.mem_have.mpr hhave⟩
  · refine ⟨.queued, PieceTracker.mem_queue_intoChunks.mpr ?_⟩
    cases st with
    | had => exact absurd hst hhave
    | queued => exact .inl hst
    | inFlight => exact .inr ⟨⟨hlt, hst⟩, hhave⟩
    | checked =>
      obtain ⟨peer, hpeer⟩ := hst
      exact absurd hpeer (hsettles peer q)

/-- **A step that lets checks come to a verdict keeps what is needed.** -/
theorem Kept.step (h : s.Kept) {e : TorrentEvent} (hsettles : s.Settles e) : (s.step e).Kept := by
  cases e with
  | acquire peer avg priority has env =>
    unfold LiveTorrent.step
    dsimp only
    split
    · exact h.acquire peer avg priority has env
    · exact h
  | receive peer index start len => exact h.receive peer index start len
  | write peer now => exact h.write peer now
  | writeFails peer => exact h.writeFails peer
  | check peer verdict => exact h.check peer hsettles
  | report peer => exact h.report peer
  | die peer => exact h.die peer
  | updateOnlyFiles onlyFiles => exact h.updateOnlyFiles onlyFiles
  | pause =>
    unfold LiveTorrent.step
    dsimp only
    split
    · exact h.pause hsettles
    · exact h
  | resume =>
    intro p hlt hp
    obtain ⟨st, hst⟩ := h p hlt hp
    refine ⟨st, ?_⟩
    cases st with
    | _ => exact hst

/-! ## The counts -/

/-- The counts agree with the bits, and only pieces that there are are checked. -/
structure Counted (s : LiveTorrent) : Prop where
  inSync : s.pieces.chunks.InSync
  checked : ∀ peer p, s.tasks peer = .checking p → p < s.pieces.chunks.lengths.totalPieces

theorem counted_start (havePieces selectedPieces : Finset ℕ) (lengths : Lengths)
    (files : List FileInfo) (filePriorities : List ℕ) :
    (start havePieces selectedPieces lengths files filePriorities).Counted :=
  ⟨ChunkTracker.inSync_new _ _ _ _, fun _ _ hp => by cases hp⟩

/-- The counts and what they count are as they were, and nothing new is checked. -/
theorem Counted.of_counts {s' : LiveTorrent} (h : s.Counted)
    (hcounts : s.pieces.chunks.Counts s'.pieces.chunks)
    (hchecking : ∀ peer p, s'.tasks peer = .checking p →
      p < s.pieces.chunks.lengths.totalPieces) : s'.Counted :=
  ⟨h.inSync.of_counts hcounts, fun peer p hp => hcounts.lengths.symm ▸ hchecking peer p hp⟩

/-- What is checked after a task goes on was checked before, if the task does not check. -/
theorem Counted.checked_setTask (h : s.Counted) {s' : LiveTorrent} (htasks : s'.tasks = s.tasks)
    {peer : PeerHandle} {task : PieceTask} (htask : ∀ p, task = .checking p →
      p < s.pieces.chunks.lengths.totalPieces) (peer' : PeerHandle) (p : ℕ)
    (hp : (s'.setTask peer task).tasks peer' = .checking p) :
    p < s.pieces.chunks.lengths.totalPieces := by
  by_cases hne : peer' = peer
  · rw [hne, tasks_setTask_self] at hp
    exact htask p hp
  · rw [tasks_setTask_of_ne hne, htasks] at hp
    exact h.checked peer' p hp

theorem Counted.write (h : s.Counted) (peer : PeerHandle) (now : ℕ) :
    (s.write peer now).Counted := by
  unfold LiveTorrent.write
  split
  · rename_i index start len hpeer
    have hcounts := ChunkTracker.counts_markChunkDownloaded (t := s.pieces.chunks)
      index start len
    dsimp only
    split
    · rename_i hcompleted
      refine h.of_counts hcounts (h.checked_setTask rfl fun p hp => ?_)
      split at hp
      · cases hp
        exact ChunkTracker.lt_of_markChunkDownloaded hcompleted
      · cases hp
    · exact h.of_counts hcounts (h.checked_setTask rfl fun p hp => by cases hp)
  · exact h

theorem Counted.check (h : s.Counted) (peer : PeerHandle) (verdict : Option Bool) :
    (s.check peer verdict).Counted := by
  unfold LiveTorrent.check
  split
  · rename_i p hpeer
    split
    · refine ⟨h.inSync.markPieceDownloaded (h.checked peer p hpeer), fun peer' q hq => ?_⟩
      show q < (s.pieces.chunks.markPieceDownloaded p).lengths.totalPieces
      rw [ChunkTracker.lengths_markPieceDownloaded]
      exact h.checked_setTask rfl (fun q hq => by cases hq) peer' q hq
    · exact h.of_counts ChunkTracker.counts_markPieceBrokenIfNotHave
        (h.checked_setTask rfl fun q hq => by cases hq)
    · exact h.of_counts (.refl _) (h.checked_setTask rfl fun q hq => by cases hq)
  · exact h

/-- **Every step keeps the counts in agreement with the bits.** -/
theorem Counted.step (h : s.Counted) (e : TorrentEvent) : (s.step e).Counted := by
  -- the counters move only with the had and selected sets, and `counts_*` say how; a checked piece
  -- is a piece of the torrent throughout
  cases e with
  | acquire peer avg priority has env =>
    unfold LiveTorrent.step
    dsimp only
    split
    · obtain ⟨p, info, -, -, -, hnext⟩ | ⟨p, -, hnext⟩ | hnext :=
        s.pieces.acquirePiece_cases env (s.request peer avg priority has)
      · rw [hnext]
        exact h.of_counts (.refl _) h.checked
      · rw [hnext]
        exact h.of_counts ChunkTracker.counts_reserveNeededPiece h.checked
      · rw [hnext]
        exact h
    · exact h
  | receive peer index start len =>
    unfold LiveTorrent.step LiveTorrent.receive
    dsimp only
    split
    · exact h.of_counts (.refl _) (h.checked_setTask rfl fun p hp => by cases hp)
    · exact h
  | write peer now => exact h.write peer now
  | writeFails peer =>
    unfold LiveTorrent.step LiveTorrent.writeFails
    dsimp only
    split
    · exact h.of_counts (.refl _) (h.checked_setTask rfl fun p hp => by cases hp)
    · exact h
  | check peer verdict => exact h.check peer verdict
  | report peer =>
    unfold LiveTorrent.step LiveTorrent.report
    dsimp only
    split
    · exact h.of_counts (ChunkTracker.counts_onPieceCompleted _)
        (h.checked_setTask rfl fun p hp => by cases hp)
    · exact h
  | die peer =>
    unfold LiveTorrent.step LiveTorrent.die
    dsimp only
    split
    · exact h.of_counts (PieceTracker.counts_releasePiecesOwnedBy peer) h.checked
    · exact h
  | updateOnlyFiles onlyFiles =>
    refine ⟨ChunkTracker.inSync_updateOnlyFiles s.files onlyFiles, fun peer p hp => ?_⟩
    show p < (s.pieces.chunks.updateOnlyFiles s.files onlyFiles).lengths.totalPieces
    rw [ChunkTracker.lengths_updateOnlyFiles]
    exact h.checked peer p hp
  | pause =>
    unfold LiveTorrent.step
    dsimp only
    split
    · exact h.of_counts PieceTracker.counts_intoChunks fun peer p hp => by cases hp
    · exact h
  | resume => exact ⟨h.inSync, h.checked⟩

/-! ## What a check without a verdict loses -/

/-- A piece that is selected, and in no state: it is not had, not queued, not in flight and
not being checked. -/
structure Lost (s : LiveTorrent) (p : ℕ) : Prop where
  selected : p ∈ s.pieces.chunks.selected
  nowhere : ∀ st, ¬ s.IsIn p st

/-- The piece stays selected, whatever files the user selects next. -/
def KeepsSelected (p : ℕ) (s : LiveTorrent) : TorrentEvent → Prop
  | .updateOnlyFiles onlyFiles => p ∈ computeSelectedPieces s.files onlyFiles
  | _ => True

/-- A piece is lost if it was, and no state of it is new. -/
theorem Lost.of_isIn {s' : LiveTorrent} {p : ℕ} (h : s.Lost p)
    (hselected : p ∈ s'.pieces.chunks.selected)
    (hhad : p ∈ s'.pieces.chunks.have_ → p ∈ s.pieces.chunks.have_)
    (hqueued : p ∈ s'.pieces.chunks.queuePieces → p ∈ s.pieces.chunks.queuePieces)
    (hfly : s'.pieces.inflight p ≠ none → s.pieces.inflight p ≠ none)
    (hchecked : ∀ peer, s'.tasks peer = .checking p → s.tasks peer = .checking p) :
    s'.Lost p := by
  refine ⟨hselected, fun st hst => ?_⟩
  cases st with
  | had => exact h.nowhere .had (hhad hst)
  | queued => exact h.nowhere .queued (hqueued hst)
  | inFlight => exact h.nowhere .inFlight (hfly hst)
  | checked =>
    obtain ⟨peer, hpeer⟩ := hst
    exact h.nowhere .checked ⟨peer, hchecked peer hpeer⟩

/-- What is checked after a task goes on, if it does not check the piece. -/
theorem checking_of_setTask {s' : LiveTorrent} (htasks : s'.tasks = s.tasks) {peer : PeerHandle}
    {task : PieceTask} {p : ℕ} (htask : task ≠ .checking p) {peer' : PeerHandle}
    (hp : (s'.setTask peer task).tasks peer' = .checking p) : s.tasks peer' = .checking p := by
  have hne : peer' ≠ peer := by
    rintro rfl
    exact htask ((tasks_setTask_self _ _).symm.trans hp)
  exact htasks ▸ (tasks_setTask_of_ne hne _).symm.trans hp

theorem Lost.acquire {p : ℕ} (h : s.Lost p) {peer : PeerHandle} {avg : Option ℕ}
    {priority : List ℕ} {has : ℕ → Bool} {env : AcquireEnv}
    (hcareful : s.Careful (.acquire peer avg priority has env)) :
    (s.setPieces (s.pieces.acquirePiece env (s.request peer avg priority has)).2).Lost p := by
  have hfly {q : ℕ} {info : InflightPiece} (hqp : p ≠ q)
      (hp : Function.update s.pieces.inflight q (some info) p ≠ none) :
      s.pieces.inflight p ≠ none := by
    rwa [Function.update_of_ne hqp] at hp
  obtain ⟨q, info, hinfo, -, -, hnext⟩ | ⟨q, hq, hnext⟩ | hnext :=
    s.pieces.acquirePiece_cases env (s.request peer avg priority has)
  · have hqp : p ≠ q := by
      rintro rfl
      exact h.nowhere .inFlight (by rw [IsIn, hinfo]; rintro ⟨⟩)
    rw [hnext]
    exact h.of_isIn h.selected id id (hfly hqp) fun _ => id
  · have hqueue : q ∈ s.pieces.chunks.queuePieces := by
      obtain ⟨hpriority, hhave, hnone⟩ | ⟨hqueue, -⟩ := hq
      · obtain ⟨hmem, hlt⟩ := List.mem_filter.mp hpriority
        exact hcareful q hmem (of_decide_eq_true hlt) hhave hnone
      · exact hqueue
    have hqp : p ≠ q := by
      rintro rfl
      exact h.nowhere .queued hqueue
    rw [hnext]
    exact h.of_isIn h.selected id (fun hp => mem_of_mem_erase hp) (hfly hqp) fun _ => id
  · rw [hnext]
    exact h

theorem Lost.write {p : ℕ} (h : s.Lost p) (hexclusive : s.Exclusive) (peer : PeerHandle)
    (now : ℕ) : (s.write peer now).Lost p := by
  unfold LiveTorrent.write
  split
  · rename_i index start len hpeer
    have hcounts := ChunkTracker.counts_markChunkDownloaded (t := s.pieces.chunks)
      index start len
    have hqueue := ChunkTracker.queue_markChunkDownloaded (t := s.pieces.chunks) index start len
    have hselected : p ∈ (s.pieces.chunks.markChunkDownloaded index start len).2.selected :=
      hcounts.selected.symm ▸ h.selected
    obtain ⟨-, info, hinfo, -⟩ := hexclusive.written peer index start len hpeer
    have hindex : p ≠ index := by
      rintro rfl
      exact h.nowhere .inFlight (by rw [IsIn, hinfo]; rintro ⟨⟩)
    dsimp only
    split
    · refine h.of_isIn hselected hcounts.mem_have.mp (congrArg (p ∈ ·) hqueue).mp (fun hp => ?_)
        fun peer' hp => checking_of_setTask rfl (fun htask => ?_) hp
      · replace hp : Function.update s.pieces.inflight index none p ≠ none := hp
        rwa [Function.update_of_ne hindex] at hp
      · split at htask
        · exact hindex (PieceTask.checking.inj htask).symm
        · cases htask
    · exact h.of_isIn hselected hcounts.mem_have.mp (congrArg (p ∈ ·) hqueue).mp id
        fun peer' hp => checking_of_setTask rfl (fun htask => by cases htask) hp
  · exact h

theorem Lost.check {p : ℕ} (h : s.Lost p) (peer : PeerHandle) (verdict : Option Bool) :
    (s.check peer verdict).Lost p := by
  unfold LiveTorrent.check
  split
  · rename_i q hpeer
    have hqp : p ≠ q := by
      rintro rfl
      exact h.nowhere .checked ⟨peer, hpeer⟩
    split
    · refine h.of_isIn ?_ (fun hp => ?_)
        (congrArg (p ∈ ·) ChunkTracker.queue_markPieceDownloaded).mp id
        fun peer' hp => checking_of_setTask rfl (fun htask => by cases htask) hp
      · exact (congrArg (p ∈ ·) ChunkTracker.selected_markPieceDownloaded).mpr h.selected
      · replace hp := (congrArg (p ∈ ·) ChunkTracker.have_markPieceDownloaded).mp hp
        exact (mem_insert.mp hp).resolve_left hqp
    · have hcounts := ChunkTracker.counts_markPieceBrokenIfNotHave
        (t := s.pieces.chunks) (p := q)
      refine h.of_isIn ?_ hcounts.mem_have.mp (fun hp => ?_) id
        fun peer' hp => checking_of_setTask rfl (fun htask => by cases htask) hp
      · exact (congrArg (p ∈ ·) hcounts.selected).mpr h.selected
      · exact (ChunkTracker.mem_queue_markPieceBroken.mp hp).resolve_right
          fun hand => hqp hand.1
    · exact h.of_isIn h.selected id id id
        fun peer' hp => checking_of_setTask rfl (fun htask => by cases htask) hp
  · exact h

theorem Lost.pause {p : ℕ} (h : s.Lost p) : s.pause.Lost p := by
  have hcounts := PieceTracker.counts_intoChunks (t := s.pieces)
  refine h.of_isIn ?_ hcounts.mem_have.mp (fun hp => ?_) (fun hp => absurd rfl hp)
    fun peer hp => by cases hp
  · exact (congrArg (p ∈ ·) hcounts.selected).mpr h.selected
  · exact (PieceTracker.mem_queue_intoChunks.mp hp).resolve_right
      fun hfly => h.nowhere .inFlight hfly.1.2

/-- **A step finds no lost piece again**, if the piece stays selected. -/
theorem Lost.step {p : ℕ} (h : s.Lost p) (hexclusive : s.Exclusive) {e : TorrentEvent}
    (hcareful : s.Careful e) (hkeeps : KeepsSelected p s e) : (s.step e).Lost p := by
  -- a lost piece is selected and in none of the four states; each event is shown to leave it in
  -- none, and only `acquire` needs `Careful` for it
  cases e with
  | acquire peer avg priority has env =>
    unfold LiveTorrent.step
    dsimp only
    split
    · exact h.acquire hcareful
    · exact h
  | receive peer index start len =>
    unfold LiveTorrent.step LiveTorrent.receive
    dsimp only
    split
    · exact h.of_isIn h.selected id id id
        fun peer' hp => checking_of_setTask rfl (fun htask => by cases htask) hp
    · exact h
  | write peer now => exact h.write hexclusive peer now
  | writeFails peer =>
    unfold LiveTorrent.step LiveTorrent.writeFails
    dsimp only
    split
    · exact h.of_isIn h.selected id id id
        fun peer' hp => checking_of_setTask rfl (fun htask => by cases htask) hp
    · exact h
  | check peer verdict => exact h.check peer verdict
  | report peer =>
    unfold LiveTorrent.step LiveTorrent.report
    dsimp only
    split
    · rename_i q hpeer
      have hcounts := ChunkTracker.counts_onPieceCompleted (t := s.pieces.chunks) (p := q) s.files
      refine h.of_isIn ((congrArg (p ∈ ·) hcounts.selected).mpr h.selected) hcounts.mem_have.mp
        (congrArg (p ∈ ·) (ChunkTracker.queue_onPieceCompleted _)).mp id
        fun peer' hp => checking_of_setTask rfl (fun htask => by cases htask) hp
    · exact h
  | die peer =>
    unfold LiveTorrent.step LiveTorrent.die
    dsimp only
    split
    -- a dying peer releases what it had in flight, and the lost piece was not
    · have hcounts := PieceTracker.counts_releasePiecesOwnedBy (t := s.pieces) peer
      refine h.of_isIn ((congrArg (p ∈ ·) hcounts.selected).mpr h.selected) hcounts.mem_have.mp
        (fun hp => ?_) (fun hp => ?_) fun _ => id
      · refine (PieceTracker.mem_queue_releasePiecesOwnedBy.mp hp).resolve_right ?_
        rintro ⟨⟨-, info, hinfo, -⟩, -⟩
        exact h.nowhere .inFlight (by rw [IsIn, hinfo]; rintro ⟨⟩)
      · replace hp : (s.pieces.releasePiecesOwnedBy peer).2.inflight p ≠ none := hp
        rw [PieceTracker.inflight_releasePiecesOwnedBy] at hp
        split at hp
        · exact absurd rfl hp
        · exact hp
    · exact h
  | updateOnlyFiles onlyFiles =>
    refine h.of_isIn ?_
      (congrArg (p ∈ ·) (ChunkTracker.have_updateOnlyFiles s.files onlyFiles)).mp (fun hp => ?_)
      id fun _ => id
    · exact (congrArg (p ∈ ·)
        (ChunkTracker.selected_updateOnlyFiles s.files onlyFiles)).mpr hkeeps
    · exact ((ChunkTracker.mem_queue_updateOnlyFiles _ _).mp hp).1.resolve_right
        fun hnew => hnew.2.2.1 h.selected
  | pause =>
    unfold LiveTorrent.step
    dsimp only
    split
    · exact h.pause
    · exact h
  | resume => exact h.of_isIn h.selected id id id fun _ => id

/-! ## Runs -/

section runs

variable (havePieces selectedPieces : Finset ℕ) (lengths : Lengths) (files : List FileInfo)
  (filePriorities : List ℕ) (events : List TorrentEvent)

/-- **The byte counts of a torrent agree with its bits**, whatever has happened to it. -/
theorem hns_agrees : ((start havePieces selectedPieces lengths files filePriorities).run
    events).pieces.chunks.InSync := by
  have hall : Along step (fun _ _ => True) events
      (start havePieces selectedPieces lengths files filePriorities) := by
    generalize start havePieces selectedPieces lengths files filePriorities = s
    induction events generalizing s with
    | nil => trivial
    | cons e events ih => exact ⟨trivial, ih _⟩
  exact (hall.invariant (I := Counted) (fun _ e h _ => h.step e)
    (counted_start havePieces selectedPieces lengths files filePriorities)).inSync

variable {havePieces selectedPieces lengths files filePriorities events}

theorem exclusive_run (hcareful : Along step Careful events
    (start havePieces selectedPieces lengths files filePriorities)) :
    ((start havePieces selectedPieces lengths files filePriorities).run events).Exclusive :=
  hcareful.invariant (I := Exclusive) (fun _ _ h hc => h.step hc) (exclusive_start ..)

/-- **Each piece is in one state, and none that is needed is lost.** After a run whose steps are
careful no piece is in two of the states; and if every check came to a verdict in time, each
selected piece is in exactly one. -/
theorem pieces_in_one_state (hcareful : Along step Careful events
    (start havePieces selectedPieces lengths files filePriorities)) :
    (∀ p st st', ((start havePieces selectedPieces lengths files filePriorities).run
        events).IsIn p st → ((start havePieces selectedPieces lengths files filePriorities).run
          events).IsIn p st' → st = st') ∧
      (Along step Settles events
          (start havePieces selectedPieces lengths files filePriorities) →
        ∀ p < ((start havePieces selectedPieces lengths files filePriorities).run
            events).pieces.chunks.lengths.totalPieces,
          p ∈ ((start havePieces selectedPieces lengths files filePriorities).run
            events).pieces.chunks.selected →
            ∃! st, ((start havePieces selectedPieces lengths files filePriorities).run
              events).IsIn p st) := by
  have hexclusive := exclusive_run hcareful
  refine ⟨fun p st st' hst hst' => hexclusive.eq_of_isIn hst hst', fun hsettles p hlt hp => ?_⟩
  have hkept := hsettles.invariant (I := Kept) (fun _ _ h hc => h.step hc)
    (kept_start havePieces selectedPieces lengths files filePriorities)
  obtain ⟨st, hst⟩ := hkept p hlt hp
  exact ⟨st, hst, fun st' hst' => hexclusive.eq_of_isIn hst' hst⟩

/-- **A check without a verdict loses its piece.** If the piece that is being checked cannot be
read, or the torrent is paused while it is being checked, the piece is in no state from then
on, whatever happens, as long as it stays selected and no piece is asked for out of turn that
is not queued: it is not had, not queued, and no peer is asked for it. -/
theorem unsettled_lost (hcareful : Along step Careful events
    (start havePieces selectedPieces lengths files filePriorities)) {peer : PeerHandle} {p : ℕ}
    (hchecking : ((start havePieces selectedPieces lengths files filePriorities).run
      events).tasks peer = .checking p)
    (hselected : p ∈ ((start havePieces selectedPieces lengths files filePriorities).run
      events).pieces.chunks.selected) {e : TorrentEvent}
    (he : e = .check peer none ∨ e = .pause ∧ ((start havePieces selectedPieces lengths files
      filePriorities).run events).live = true) {more : List TorrentEvent}
    (hmore : Along step (fun s e => s.Careful e ∧ KeepsSelected p s e) more
      (((start havePieces selectedPieces lengths files filePriorities).run events).step e)) :
    ((((start havePieces selectedPieces lengths files filePriorities).run events).step e).run
      more).Lost p := by
  have hexclusive := exclusive_run hcareful
  generalize (start havePieces selectedPieces lengths files filePriorities).run events = s at *
  obtain ⟨hqueue, hhave, hnone⟩ := hexclusive.checked peer p hchecking
  -- the check left no verdict, or the torrent was paused under it: `checked` was the piece's only
  -- state, and it is gone from that one too
  have hfirst : (s.step e).Exclusive ∧ (s.step e).Lost p := by
    obtain rfl | ⟨rfl, hlive⟩ := he
    · refine ⟨hexclusive.check peer none, ?_⟩
      have hstep : s.step (.check peer none) = s.setTask peer .idle := by
        show s.check peer none = _
        unfold LiveTorrent.check
        rw [hchecking]
      rw [hstep]
      refine ⟨hselected, fun st hst => ?_⟩
      cases st with
      | had => exact hhave hst
      | queued => exact hqueue hst
      | inFlight => exact hst hnone
      | checked =>
        obtain ⟨peer', hpeer'⟩ := hst
        by_cases hne : peer' = peer
        · rw [hne, tasks_setTask_self] at hpeer'
          cases hpeer'
        · rw [tasks_setTask_of_ne hne] at hpeer'
          exact hne (hexclusive.unique peer' peer p hpeer' hchecking)
    · have hcounts := PieceTracker.counts_intoChunks (t := s.pieces)
      have hstep : s.step .pause = s.pause := if_pos hlive
      rw [hstep]
      refine ⟨hexclusive.pause, (congrArg (p ∈ ·) hcounts.selected).mpr hselected,
        fun st hst => ?_⟩
      cases st with
      | had => exact hhave (hcounts.mem_have.mp hst)
      | queued =>
        obtain hq | ⟨⟨-, hfly⟩, -⟩ := PieceTracker.mem_queue_intoChunks.mp hst
        · exact hqueue hq
        · exact hfly hnone
      | inFlight => exact hst rfl
      | checked =>
        obtain ⟨peer', hpeer'⟩ := hst
        cases hpeer'
  exact (hmore.invariant (I := fun s => s.Exclusive ∧ s.Lost p)
    (fun _ _ h hc => ⟨h.1.step hc.1, h.2.step h.1 hc.1 hc.2⟩) hfirst).2

end runs

/-! ## A torrent of one piece -/

/-- One piece, of one chunk, five bytes long. -/
def onePiece : Lengths where
  totalPieces := 1
  pieceLength _ := 5
  chunksPerPiece _ := 1
  chunkInfo _ _ _ := some 0
  sizeOfPieceInFile _ _ len := len

/-- The torrent, whose one file is selected and of which nothing is there. -/
def oneFile : LiveTorrent := start ∅ {0} onePiece [⟨0, 0, 1, false, 5⟩] [0]

/-- A peer that has everything, known by its address. -/
def seeder : PeerHandle := "127.0.0.1:6881".toList

/-- The peer is asked for the piece, and sends it, up to the write of the chunk, with the
check of the piece still to come. -/
def fetched : List TorrentEvent :=
  [.acquire seeder none [] (fun _ => true) ⟨0, [], fun _ _ => 0⟩, .receive seeder 0 0 5,
    .write seeder 0]

theorem fetched_careful : Along step Careful fetched oneFile :=
  ⟨fun _ hp => absurd hp List.not_mem_nil, trivial, trivial, trivial⟩

theorem fetched_checking : (oneFile.run fetched).tasks seeder = .checking 0 := by decide +kernel

/-- The piece is had in the end, and only that. -/
theorem fetched_settles :
    Along step Careful (fetched ++ [.check seeder (some true)]) oneFile ∧
      ∃! st, (oneFile.run (fetched ++ [.check seeder (some true)])).IsIn 0 st := by
  have hcareful : Along step Careful (fetched ++ [.check seeder (some true)]) oneFile :=
    Along.append_singleton.mpr ⟨fetched_careful, trivial⟩
  refine ⟨hcareful, (pieces_in_one_state hcareful).2 ?_ 0 (by decide +kernel)
    (by decide +kernel)⟩
  exact ⟨trivial, trivial, trivial, by rintro ⟨⟩, trivial⟩

/-- Paused while it is being checked, the piece is lost; nobody is asked for it when the torrent
goes on. -/
theorem paused_lost : (((oneFile.run fetched).step .pause).run
    [.resume, .acquire seeder none [] (fun _ => true) ⟨0, [], fun _ _ => 0⟩]).Lost 0 :=
  unsettled_lost fetched_careful fetched_checking (by decide +kernel)
    (.inr ⟨rfl, by decide +kernel⟩)
    ⟨⟨trivial, trivial⟩, ⟨fun _ hp => absurd hp List.not_mem_nil, trivial⟩, trivial⟩

end LiveTorrent

end Atlas
