import Atlas.PieceFiles
import Atlas.PieceRuns

/-!
# What a torrent has is on disk

The chunks that peers send are written to the files of the torrent, by several tasks at a time
and in no order, and a write may reach the disk in parts, in part only, or not at all. What is
checked is read back from the files. A piece that is had is not looked at again: it is given to
other peers, and it is what the download is in the end.

`TorrentDisk.had_on_disk` says that a had piece is what it should be at any time, whatever the
peers sent, as long as the run is careful: then no task writes to a piece that is had, for a
piece that is written to is in flight. It is the lock of the piece that makes it so, and the
look at who has it in flight, which are both taken before the write.
-/

namespace Atlas

open Finset Transition

/-- A torrent with its files, and what each peer's task has to write. -/
structure TorrentDisk where
  torrent : LiveTorrent
  files : TorrentStorage
  data : PeerHandle → Bytes

/-- What happens to a torrent and its files: the torrent's own events, with the data and the
answers of the disk. -/
inductive DiskEvent where
  | acquire (peer : PeerHandle) (avg : Option ℕ) (priority : List ℕ) (has : ℕ → Bool)
      (env : AcquireEnv)
  | receive (peer : PeerHandle) (index start : ℕ) (data : Bytes)
  /-- Some of what a peer sent reaches the disk. -/
  | put (peer : PeerHandle) (io : FileIo)
  /-- The write of what a peer sent is over, with success or not. -/
  | write (peer : PeerHandle) (io : FileIo) (now : ℕ)
  /-- A piece is read back and hashed. -/
  | check (peer : PeerHandle) (io : FileIo)
  | report (peer : PeerHandle)
  | die (peer : PeerHandle)
  | updateOnlyFiles (onlyFiles : ℕ → Bool)
  /-- Once the files are taken from them, the tasks that still write reach nothing. -/
  | pause
  | resume

namespace TorrentDisk

variable (D : Digests) (m : TorrentInfo)

/-- The files once a peer's data was written, and whether all of it was. -/
def written (s : TorrentDisk) (peer : PeerHandle) (io : FileIo) : Bool × TorrentStorage :=
  match s.torrent.tasks peer with
  | .writing index start _ => m.writeChunk io s.files index start (s.data peer)
  | _ => (false, s.files)

/-- What an event is for the torrent. Data that is no chunk of a piece is refused. -/
def torrentEvent (s : TorrentDisk) : DiskEvent → Option TorrentEvent
  | .acquire peer avg priority has env => some (.acquire peer avg priority has env)
  | .receive peer index start data =>
    if index < m.lengths.totalPieces ∧ (m.lengths.chunkInfo index start data.length).isSome then
      some (.receive peer index start data.length)
    else none
  | .put _ _ => none
  | .write peer io now =>
    some (if (s.written m peer io).1 then .write peer now else .writeFails peer)
  | .check peer io =>
    match s.torrent.tasks peer with
    | .checking p => some (.check peer (m.checkPiece D io s.files p))
    | _ => none
  | .report peer => some (.report peer)
  | .die peer => some (.die peer)
  | .updateOnlyFiles onlyFiles => some (.updateOnlyFiles onlyFiles)
  | .pause => some .pause
  | .resume => some .resume

/-- What an event does to the files; only the writing of a chunk touches them. -/
def filesAfter (s : TorrentDisk) : DiskEvent → TorrentStorage
  | .put peer io => (s.written m peer io).2
  | .write peer io _ => (s.written m peer io).2
  | _ => s.files

/-- What the tasks have to write after an event. A task that is busy takes nothing. -/
def dataAfter (s : TorrentDisk) : DiskEvent → PeerHandle → Bytes
  | .receive peer _ _ data =>
    if s.torrent.tasks peer = .idle then Function.update s.data peer data else s.data
  | _ => s.data

/-- What an event does: to the torrent where it concerns it, to the files, and to the data
held for writing. -/
def step (s : TorrentDisk) (e : DiskEvent) : TorrentDisk where
  torrent := ((s.torrentEvent D m e).map s.torrent.step).getD s.torrent
  files := s.filesAfter m e
  data := s.dataAfter e

/-- A torrent whose pieces some are had, over files that were checked beforehand. -/
def start (havePieces selectedPieces : Finset ℕ) (files : TorrentStorage)
    (filePriorities : List ℕ) : TorrentDisk where
  torrent := .start havePieces selectedPieces m.lengths m.fileInfos filePriorities
  files := files
  data _ := []

/-- The event is careful, for the torrent; one that is no event of the torrent's always is. -/
def Careful (s : TorrentDisk) (e : DiskEvent) : Prop :=
  ∀ e', s.torrentEvent D m e = some e' → s.torrent.Careful e'

end TorrentDisk

namespace LiveTorrent

variable {s : LiveTorrent}

/-- **Only a check makes a piece had.** -/
theorem have_step {e : TorrentEvent} {p : ℕ} (hp : p ∈ (s.step e).pieces.chunks.have_) :
    p ∈ s.pieces.chunks.have_ ∨
      ∃ peer, e = .check peer (some true) ∧ s.tasks peer = .checking p := by
  -- only a check that succeeds adds to the pieces had; under every other event the set stays as it
  -- was
  cases e with
  | acquire peer avg priority has env =>
    unfold LiveTorrent.step at hp
    dsimp only at hp
    split at hp
    · obtain ⟨q, info, -, -, -, hnext⟩ | ⟨q, -, hnext⟩ | hnext :=
        s.pieces.acquirePiece_cases env (s.request peer avg priority has)
      · rw [hnext] at hp
        exact Or.inl hp
      · rw [hnext] at hp
        exact Or.inl hp
      · rw [hnext] at hp
        exact Or.inl hp
    · exact Or.inl hp
  | receive peer index start len =>
    unfold LiveTorrent.step LiveTorrent.receive at hp
    dsimp only at hp
    split at hp
    · exact Or.inl hp
    · exact Or.inl hp
  | write peer now =>
    unfold LiveTorrent.step LiveTorrent.write at hp
    dsimp only at hp
    split at hp
    · split at hp
      · exact Or.inl ((ChunkTracker.counts_markChunkDownloaded _ _ _).mem_have.mp hp)
      · exact Or.inl ((ChunkTracker.counts_markChunkDownloaded _ _ _).mem_have.mp hp)
    · exact Or.inl hp
  | writeFails peer =>
    unfold LiveTorrent.step LiveTorrent.writeFails at hp
    dsimp only at hp
    split at hp
    · exact Or.inl hp
    · exact Or.inl hp
  | check peer verdict =>
    unfold LiveTorrent.step LiveTorrent.check at hp
    dsimp only at hp
    split at hp
    · rename_i q hchecking
      cases verdict with
      | none => exact Or.inl hp
      | some ok =>
        cases ok with
        | false => exact Or.inl (ChunkTracker.counts_markPieceBrokenIfNotHave.mem_have.mp hp)
        | true =>
          have hq : p ∈ insert q s.pieces.chunks.have_ :=
            ChunkTracker.have_markPieceDownloaded (t := s.pieces.chunks) (p := q) ▸ hp
          rcases Finset.mem_insert.mp hq with rfl | hold
          · exact Or.inr ⟨peer, rfl, hchecking⟩
          · exact Or.inl hold
    · exact Or.inl hp
  | report peer =>
    unfold LiveTorrent.step LiveTorrent.report at hp
    dsimp only at hp
    split at hp
    · exact Or.inl ((ChunkTracker.counts_onPieceCompleted _).mem_have.mp hp)
    · exact Or.inl hp
  | die peer =>
    unfold LiveTorrent.step LiveTorrent.die at hp
    dsimp only at hp
    split at hp
    · exact Or.inl ((PieceTracker.counts_releasePiecesOwnedBy peer).mem_have.mp hp)
    · exact Or.inl hp
  | updateOnlyFiles onlyFiles =>
    exact Or.inl (ChunkTracker.have_updateOnlyFiles s.files onlyFiles ▸ hp)
  | pause =>
    unfold LiveTorrent.step at hp
    dsimp only at hp
    split at hp
    · exact Or.inl (PieceTracker.counts_intoChunks.mem_have.mp hp)
    · exact Or.inl hp
  | resume => exact Or.inl hp

/-- Where a task that is at work comes from: it was there before the step, or is what the
step made of an earlier task. -/
def Follows (s : LiveTorrent) (e : TorrentEvent) (peer : PeerHandle) : PieceTask → Prop
  | .writing index start len =>
    s.tasks peer = .writing index start len ∨ s.tasks peer = .idle ∧
      e = .receive peer index start len
  | .checking p => s.tasks peer = .checking p ∨ ∃ start len, s.tasks peer = .writing p start len
  | _ => True

theorem Follows.of_eq {e : TorrentEvent} {peer : PeerHandle} {task : PieceTask}
    (h : s.tasks peer = task) : s.Follows e peer task := by
  cases task with
  | idle => trivial
  | writing index start len => exact Or.inl h
  | checking p => exact Or.inl h
  | reporting p => trivial

theorem Follows.setTask {s' : LiveTorrent} {e : TorrentEvent} {peer peer' : PeerHandle}
    {task : PieceTask} (htasks : s'.tasks = s.tasks) (h : s.Follows e peer task) :
    s.Follows e peer' ((s'.setTask peer task).tasks peer') := by
  by_cases hne : peer' = peer
  · rw [hne, tasks_setTask_self]
    exact h
  · rw [tasks_setTask_of_ne hne, htasks]
    exact .of_eq rfl

/-- **What a task is at after an event.** -/
theorem follows_step (e : TorrentEvent) (peer' : PeerHandle) :
    s.Follows e peer' ((s.step e).tasks peer') := by
  -- a task changes only through an event of its own peer, save that a pause ends them all
  cases e with
  | acquire peer avg priority has env =>
    unfold LiveTorrent.step
    dsimp only
    split
    · exact .of_eq rfl
    · exact .of_eq rfl
  | receive peer index start len =>
    unfold LiveTorrent.step LiveTorrent.receive
    dsimp only
    split
    · rename_i hours
      exact Follows.setTask rfl (Or.inr ⟨hours.2.1, rfl⟩)
    · exact .of_eq rfl
  | write peer now =>
    unfold LiveTorrent.step LiveTorrent.write
    dsimp only
    split
    · rename_i index start len hwriting
      split
      · refine Follows.setTask rfl ?_
        split
        · exact Or.inr ⟨start, len, hwriting⟩
        · trivial
      · exact Follows.setTask rfl trivial
    · exact .of_eq rfl
  | writeFails peer =>
    unfold LiveTorrent.step LiveTorrent.writeFails
    dsimp only
    split
    · exact Follows.setTask rfl trivial
    · exact .of_eq rfl
  | check peer verdict =>
    unfold LiveTorrent.step LiveTorrent.check
    dsimp only
    split
    · split
      · exact Follows.setTask rfl trivial
      · exact Follows.setTask rfl trivial
      · exact Follows.setTask rfl trivial
    · exact .of_eq rfl
  | report peer =>
    unfold LiveTorrent.step LiveTorrent.report
    dsimp only
    split
    · exact Follows.setTask rfl trivial
    · exact .of_eq rfl
  | die peer =>
    unfold LiveTorrent.step LiveTorrent.die
    dsimp only
    split
    · exact .of_eq rfl
    · exact .of_eq rfl
  | updateOnlyFiles onlyFiles => exact .of_eq rfl
  | pause =>
    unfold LiveTorrent.step
    dsimp only
    split
    · trivial
    · exact .of_eq rfl
  | resume => exact .of_eq rfl

end LiveTorrent

namespace TorrentDisk

variable {D : Digests} {m : TorrentInfo} {content : Bytes} {s : TorrentDisk} {e : DiskEvent}

/-- **What is had is on disk**, and every task works in the piece that is its own. -/
structure Sound (m : TorrentInfo) (content : Bytes) (s : TorrentDisk) : Prop where
  exclusive : s.torrent.Exclusive
  writing : ∀ peer index start len, s.torrent.tasks peer = .writing index start len →
    index < m.lengths.totalPieces ∧ start + (s.data peer).length ≤ m.lengths.pieceLength index
  checking : ∀ peer p, s.torrent.tasks peer = .checking p → p < m.lengths.totalPieces
  had : ∀ p ∈ s.torrent.pieces.chunks.have_,
    p < m.lengths.totalPieces ∧ m.OnDisk s.files content p

/-- What is had stays on disk while others are written. -/
theorem Sound.onDisk_written (h : s.Sound m content) (hm : m.Tiled) (hmade : m.MadeOf D content)
    {p : ℕ} (hp : p ∈ s.torrent.pieces.chunks.have_) (peer : PeerHandle) (io : FileIo) :
    m.OnDisk (s.written m peer io).2 content p := by
  obtain ⟨hlt, hdisk⟩ := h.had p hp
  unfold written
  split
  · rename_i index start len hwriting
    obtain ⟨hindex, hfits⟩ := h.writing peer index start len hwriting
    obtain ⟨-, info, hinfo, -⟩ := h.exclusive.written peer index start len hwriting
    have hne : p ≠ index := by
      rintro rfl
      exact (h.exclusive.inFlight p info hinfo).2 hp
    intro j hj
    have hthere : m.pieceOffset p + j < content.length :=
      lt_of_lt_of_le (Nat.add_lt_add_left hj _) (hmade.length ▸ hm.fits hlt)
    have hbyte := hdisk j hj
    rw [List.getElem?_eq_getElem hthere] at hbyte ⊢
    refine TorrentInfo.writeChunk_frame ?_ hbyte
    rcases Nat.lt_or_gt_of_ne hne with hbefore | hafter
    · have hapart := hm.apart hbefore hindex
      exact Or.inl (by omega)
    · have hapart := hm.apart hafter hlt
      exact Or.inr (by omega)
  · exact hdisk

/-- A task that is busy keeps what it has to write. -/
theorem dataAfter_of_busy {peer : PeerHandle} (h : s.torrent.tasks peer ≠ .idle) :
    s.dataAfter e peer = s.data peer := by
  unfold dataAfter
  split
  · rename_i peer' index start data
    split
    · rename_i hidle
      refine Function.update_of_ne ?_ _ _
      rintro rfl
      exact h hidle
    · rfl
  · rfl

/-- What is known of a chunk that is received, and of a verdict: the chunk is one of a piece, and
the verdict is what was read back says. -/
def Means (D : Digests) (m : TorrentInfo) (s : TorrentDisk) (e : DiskEvent) : TorrentEvent → Prop
  | .receive peer index start len => ∃ data : Bytes, e = .receive peer index start data ∧
      len = data.length ∧ index < m.lengths.totalPieces ∧
        (m.lengths.chunkInfo index start len).isSome = true
  | .check peer verdict => ∃ io, e = .check peer io ∧ ∀ p, s.torrent.tasks peer = .checking p →
      m.checkPiece D io s.files p = verdict
  | _ => True

theorem means_torrentEvent {e' : TorrentEvent} (h : s.torrentEvent D m e = some e') :
    s.Means D m e e' := by
  cases e with
  | receive peer index start data =>
    rw [torrentEvent] at h
    split at h
    · rename_i hvalid
      cases h
      exact ⟨data, rfl, rfl, hvalid⟩
    · cases h
  | write peer io now =>
    cases h
    split
    · trivial
    · trivial
  | check peer io =>
    rw [torrentEvent] at h
    split at h
    · rename_i p hp
      cases h
      refine ⟨io, rfl, fun q hq => ?_⟩
      rw [PieceTask.checking.inj (hq.symm.trans hp)]
    · cases h
  | acquire peer avg priority has env =>
    cases h
    trivial
  | put peer io => cases h
  | report peer =>
    cases h
    trivial
  | die peer =>
    cases h
    trivial
  | updateOnlyFiles onlyFiles =>
    cases h
    trivial
  | pause =>
    cases h
    trivial
  | resume =>
    cases h
    trivial

theorem Sound.onDisk_filesAfter (h : s.Sound m content) (hm : m.Tiled)
    (hmade : m.MadeOf D content) {p : ℕ} (hp : p ∈ s.torrent.pieces.chunks.have_) :
    m.OnDisk (s.filesAfter m e) content p := by
  unfold filesAfter
  split
  · exact h.onDisk_written hm hmade hp _ _
  · exact h.onDisk_written hm hmade hp _ _
  · exact (h.had p hp).2

/-- **Every careful event keeps what is had on disk.** -/
theorem Sound.step (hinj : Function.Injective D.sha1) (hm : m.Tiled) (hmade : m.MadeOf D content)
    (h : s.Sound m content) (hcareful : s.Careful D m e) : (s.step D m e).Sound m content := by
  cases hevent : s.torrentEvent D m e with
  -- an event the torrent takes no part in: files may change, and `onDisk_filesAfter` keeps the
  -- bytes of had pieces
  | none =>
    have htorrent : (s.step D m e).torrent = s.torrent := by
      unfold TorrentDisk.step
      rw [hevent]
      rfl
    refine ⟨htorrent ▸ h.exclusive, fun peer index start len hwriting => ?_,
      fun peer p hp => h.checking peer p (htorrent ▸ hp), fun p hp => ?_⟩
    · rw [htorrent] at hwriting
      show _ ∧ start + (s.dataAfter e peer).length ≤ _
      rw [dataAfter_of_busy (by rw [hwriting]; exact PieceTask.noConfusion)]
      exact h.writing peer index start len hwriting
    · rw [htorrent] at hp
      exact ⟨(h.had p hp).1, h.onDisk_filesAfter hm hmade hp⟩
  | some e' =>
    have htorrent : (s.step D m e).torrent = s.torrent.step e' := by
      unfold TorrentDisk.step
      rw [hevent]
      rfl
    have hfollows := fun peer => LiveTorrent.follows_step (s := s.torrent) e' peer
    refine ⟨htorrent ▸ h.exclusive.step (hcareful e' hevent),
      fun peer index start len hwriting => ?_, fun peer p hchecking => ?_, fun p hp => ?_⟩
    · rw [htorrent] at hwriting
      have hfrom := hfollows peer
      rw [hwriting] at hfrom
      show _ ∧ start + (s.dataAfter e peer).length ≤ _
      rcases hfrom with hold | ⟨hidle, rfl⟩
      · rw [dataAfter_of_busy (by rw [hold]; exact PieceTask.noConfusion)]
        exact h.writing peer index start len hold
      · obtain ⟨data, rfl, rfl, hindex, hchunk⟩ := means_torrentEvent hevent
        obtain ⟨k, hk⟩ := Option.isSome_iff_exists.mp hchunk
        have hdata : s.dataAfter (.receive peer index start data) peer = data := by
          unfold dataAfter
          dsimp only
          rw [if_pos hidle, Function.update_self]
        rw [hdata]
        exact ⟨hindex, hm.chunk index start data.length k hk⟩
    · rw [htorrent] at hchecking
      have hfrom := hfollows peer
      rw [hchecking] at hfrom
      rcases hfrom with hold | ⟨start, len, hwriting⟩
      · exact h.checking peer p hold
      · exact (h.writing peer p start len hwriting).1
    · rw [htorrent] at hp
      -- a piece newly had was checked on the disk just now, and equal SHA-1 makes equal content
      rcases LiveTorrent.have_step hp with hold | ⟨peer, rfl, hchecking⟩
      · exact ⟨(h.had p hold).1, h.onDisk_filesAfter hm hmade hold⟩
      · obtain ⟨io, rfl, hcheck⟩ := means_torrentEvent hevent
        have hlt := h.checking peer p hchecking
        exact ⟨hlt, TorrentInfo.onDisk_of_checkPiece hinj hm hmade hlt (hcheck p hchecking)⟩

/-- What is read of a had piece for a peer is the content's, though more than the chunk was
read into the buffer. -/
theorem Sound.read_eq (h : s.Sound m content) (hm : m.Tiled) {p : ℕ}
    (hp : p ∈ s.torrent.pieces.chunks.have_) {io : FileIo} {bufLen begin size : ℕ}
    {read : Bytes} (hsize : size ≤ bufLen) (hfits : begin + size ≤ m.lengths.pieceLength p)
    (hread : m.readChunk io s.files bufLen p begin size = some read) :
    read.take size = (content.drop (m.pieceOffset p + begin)).take size := by
  obtain ⟨hlt, hdisk⟩ := h.had p hp
  obtain ⟨hlen, hbytes⟩ := TorrentInfo.readChunk_some hread
  have hend := hm.fits hlt
  refine List.ext_getElem? fun j => ?_
  by_cases hj : j < size
  · rw [List.getElem?_take_of_lt hj, List.getElem?_take_of_lt hj, List.getElem?_drop,
      hbytes j (by rw [hlen]; exact lt_min (by omega) (by omega)), Nat.add_assoc,
      hdisk (begin + j) (by omega)]
  · rw [List.getElem?_eq_none (Nat.le_trans (List.length_take_le _ _) (Nat.le_of_not_lt hj)),
      List.getElem?_eq_none (Nat.le_trans (List.length_take_le _ _) (Nat.le_of_not_lt hj))]

/-- What a task writes lies in the piece that its peer has in flight, and that piece is not had. -/
theorem Sound.writes (h : s.Sound m content) {peer : PeerHandle} {index begin len : ℕ}
    (hwriting : s.torrent.tasks peer = .writing index begin len) :
    begin + (s.data peer).length ≤ m.lengths.pieceLength index ∧
      index ∉ s.torrent.pieces.chunks.have_ ∧
      ∃ info, s.torrent.pieces.inflight index = some info ∧ info.peer = peer := by
  obtain ⟨-, info, hinfo, hpeer⟩ := h.exclusive.written peer index begin len hwriting
  exact ⟨(h.writing peer index begin len hwriting).2, (h.exclusive.inFlight index info hinfo).2,
    info, hinfo, hpeer⟩

variable {havePieces selectedPieces : Finset ℕ} {files : TorrentStorage} {filePriorities : List ℕ}
  {events : List DiskEvent}

/-- The torrent of one file, which is one piece and one chunk. -/
def abcTorrent : TorrentInfo where
  lengths := { LiveTorrent.onePiece with
    pieceLength := fun _ => 3
    chunkInfo := fun _ start len => if start = 0 ∧ len = 3 then some 0 else none }
  pieceOffset p := 3 * p
  fileInfos := [⟨0, 0, 1, false, 3⟩]
  pieces := [ofNumber 20 0xa9993e364706816aba3e25717850c26c9cd0d89d]

/-- The digests, with that of the piece, whose SHA-1 is the known one of `abc`. -/
def abcDigests : Digests where
  blake3 := sampleDigests.blake3
  sha256 := sampleDigests.sha256
  sha1 := tabulated [(abc, ofNumber 20 0xa9993e364706816aba3e25717850c26c9cd0d89d)]

theorem abcDigests_injective : Function.Injective abcDigests.sha1 :=
  tabulated_injective (by decide) (by decide)

theorem abcTorrent_tiled : abcTorrent.Tiled := by
  refine .of_one rfl rfl rfl (Nat.zero_lt_succ 2) fun p start len k h => ?_
  simp only [abcTorrent] at h ⊢
  split at h
  · rename_i hchunk
    rw [hchunk.1, hchunk.2]
  · cases h

theorem abcTorrent_madeOf : abcTorrent.MadeOf abcDigests abc where
  hashes p h := by
    obtain rfl : p = 0 := Nat.lt_one_iff.mp h
    decide
  length := rfl
  padding x i f pos h hpadding := by
    have hmem := (locate_mem h).1
    obtain rfl : f = ⟨0, 0, 1, false, 3⟩ := (Prod.mk.inj (List.mem_singleton.mp hmem)).1
    cases hpadding

/-- An operating system that takes one byte of a write, so that every write has to be
repeated until all of it is on disk. -/
def slow : FileIo where
  refuses _ _ _ := false
  takes _ _ _ := some 1

/-- The piece is fetched. Only its first byte has reached the disk for some time. -/
def abcFetched : List DiskEvent :=
  [.acquire LiveTorrent.seeder none [] (fun _ => true) ⟨0, [], fun _ _ => 0⟩,
    .receive LiveTorrent.seeder 0 0 abc, .put LiveTorrent.seeder slow,
    .write LiveTorrent.seeder TorrentInfo.willing 0,
    .check LiveTorrent.seeder TorrentInfo.willing]

/-- The torrent before any of it was fetched, with its file empty. -/
def abcStart : TorrentDisk := start abcTorrent ∅ {0} (fun _ => some []) [0]

theorem abcFetched_careful :
    Along (step abcDigests abcTorrent) (Careful abcDigests abcTorrent) abcFetched abcStart := by
  refine ⟨?acquire, ?receive, ?put, ?write, ?check, trivial⟩
  case acquire =>
    rintro e' ⟨⟩
    exact fun _ hp => absurd hp List.not_mem_nil
  case receive =>
    intro e' h
    rw [torrentEvent] at h
    split at h
    · cases h
      trivial
    · cases h
  case put => rintro e' ⟨⟩
  case write =>
    rintro e' ⟨⟩
    split
    · trivial
    · trivial
  case check =>
    intro e' h
    rw [torrentEvent] at h
    split at h
    · cases h
      trivial
    · cases h

end TorrentDisk

end Atlas
