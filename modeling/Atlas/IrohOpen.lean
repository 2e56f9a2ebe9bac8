import Atlas.ScratchFiles

/-!
# Fetches that share a scratch file

`open` fetches a blob from peers into a scratch file, and returns a stream that reads the
file and removes it at its end. All fetches of a blob use the same file and the same journal
next to it, and each step of each of them may come between any two steps of another: a look
for a leftover, its removal, the reading of the journal, the making of the file, the writes
of the lanes, the export of the single-peer fallback, the reads of the stream, and what a
fetch that was stopped leaves behind.

How the pieces of a striped fetch move between its lanes is a matter of `StripedFetch`; here
a lane takes some piece that is left.

`streams_exact_of_careful` says when a stream yields the blob. It need not: a fetch that
finds nothing to resume makes the scratch file anew, which cuts the file that another one
may be reading, or may be about to (`recreated_file_cuts_stream`).
-/

namespace Atlas

open Text Transition

/-- Parse a 64-character hexadecimal digest into 32 bytes, after trimming blanks around it. -/
def parseHex32 (s : Text) : Option Bytes :=
  (hexDecode s.trim).bind fun bytes => if bytes.length = 32 then some bytes else none

/-! ## Calls -/

/-- How far a call of `open` is, and the stream it returned. -/
inductive OpenPhase where
  /-- About to look for a leftover. -/
  | probing
  /-- There is one; about to look for its journal. -/
  | probingJournal
  /-- About to remove a leftover that has no journal. -/
  | clearing
  /-- About to look for peers. -/
  | asking
  /-- About to look at the length of the scratch file. -/
  | measuring
  /-- About to read the journal of a scratch file that had the length of the blob, or not. -/
  | reading (sized : Bool)
  /-- About to make the scratch file anew. -/
  | creating
  /-- About to give the file it made its length. -/
  | sizing (node : ℕ)
  /-- About to start the journal. -/
  | starting
  /-- About to open the journal for appending; these pieces are done. -/
  | proceeding (done : Finset Piece)
  /-- Its lanes are running, and note in this journal; these pieces are left. -/
  | striping (left : List Piece) (journal : Option ℕ)
  /-- All pieces are done; about to remove the journal. -/
  | finishing
  /-- Fetching from a single peer into the store. -/
  | downloading
  /-- About to remove what is where the blob is exported to. -/
  | replacing
  /-- Exporting the blob, for the first or the second time. -/
  | exporting (again : Bool)
  /-- The first export failed; about to remove what is there. -/
  | retrying
  /-- The blob is fetched; about to look at its length. -/
  | fetched
  /-- About to open the scratch file. -/
  | opening (totalSize : Option ℕ)
  /-- `open` returned a stream that reads this file. -/
  | streaming (totalSize : Option ℕ) (node : ℕ)
  /-- The stream is at its end; about to remove the scratch file. -/
  | closing
  | closingJournal
  /-- The stream ended. -/
  | ended
  /-- Stopped: about to remove the scratch file in the background. -/
  | discarding
  | discardingJournal
  /-- `open` returned an error, or its stream was dropped. -/
  | failed
  deriving DecidableEq

namespace OpenPhase

/-- There are steps to come, so that the call may still touch the scratch path. -/
def active : OpenPhase → Bool
  | .ended | .failed => false
  | _ => true

/-- The scratch file was made anew, and its journal was not started yet. -/
def making : OpenPhase → Bool
  | .sizing _ | .starting => true
  | _ => false

/-- The file that has the name is being written, or is to be read. -/
def counting : OpenPhase → Bool
  | .sizing _ | .starting | .proceeding _ | .striping _ _ | .finishing | .fetched
  | .opening _ => true
  | _ => false

/-- The file that is being read, by its inode, which stays the same when the path is given
another file. -/
def streams : OpenPhase → Option ℕ
  | .streaming _ n => some n
  | _ => none

/-- The stream yielded all it will, and what is left of the call only cleans up. -/
def atEnd : OpenPhase → Bool
  | .closing | .closingJournal | .ended => true
  | _ => false

end OpenPhase

/-- A call of `open`, with the blob it wants, where it is, and what its reader has been given. -/
structure OpenCall where
  blobHash : Text
  wanted : Wanted
  /-- The blob is fetched by a ticket, from the peer that it names. -/
  viaTicket : Bool
  phase : OpenPhase
  /-- What its stream yielded. -/
  yielded : Bytes

/-- What a lane does with the piece it took; it is idle between two pieces, and gone once
its call has let go of it. -/
inductive LaneTask where
  | idle
  | fetching (p : Piece)
  /-- Fetched and written, and not noted yet. -/
  | written (p : Piece)
  | gone
  deriving DecidableEq

/-- A lane of a striped fetch, with the files it opened. It may outlive the fetch. -/
structure StripeLane where
  call : ℕ
  wanted : Wanted
  node : ℕ
  journal : Option ℕ
  task : LaneTask

/-- What a fetch that was given up asked for, and is done all the same. -/
inductive LateStep where
  | remove
  | exportBlob (wanted : Wanted)

/-- What a late step still wants to write, if it does; a removal wants nothing to be written.
-/
def LateStep.wanted : LateStep → Option Wanted
  | .remove => none
  | .exportBlob t => some t

/-- A scratch path: its files, the calls that use it, the lanes of their striped fetches, and
what is still under way of those that were given up. -/
structure ScratchSlot where
  files : ScratchFiles
  calls : List OpenCall
  lanes : List StripeLane
  late : List LateStep

/-- What happens at a scratch path: calls begin, take steps and fail, their streams are read
or dropped, and lanes fetch pieces. -/
inductive ScratchEvent where
  /-- A call of `open` begins; its first ticket is for the blob with this hash. -/
  | begin (blobHash : Text) (ticket : Bytes)
  /-- A call takes its next step. -/
  | advance (call : ℕ)
  /-- A call finds no peers, or what it does fails. -/
  | fail (call : ℕ)
  /-- Pause or Stop is noticed, or the peer of a call stalls. -/
  | giveUp (call : ℕ) (discard : Bool)
  /-- The stream of a call is polled, and the file gives up to so many bytes. -/
  | read (call count : ℕ)
  /-- The stream of a call is dropped, or cannot read on. -/
  | drop (call : ℕ)
  /-- A lane of a call opens the scratch file. -/
  | lane (call : ℕ)
  | take (lane : ℕ) (p : Piece)
  /-- A part of the piece of a lane is written. -/
  | leaf (lane start stop : ℕ)
  /-- The piece of a lane is there. -/
  | piece (lane : ℕ)
  | requeue (lane : ℕ)
  /-- A lane counts its piece as done and notes it. -/
  | note (lane : ℕ)
  | leave (lane : ℕ)
  /-- What a fetch that was given up asked for is done, or is not. -/
  | late (index : ℕ)
  | forget (index : ℕ)
  deriving DecidableEq

/-- The longest read of a stream, 256 KiB at a time. -/
def STREAM_BUFFER : ℕ := 256 * 1024

namespace ScratchSlot

/-- Nothing was ever fetched under this name: no file, no journal, no call and no lane. -/
def fresh : ScratchSlot := ⟨⟨fun _ => Scratch.empty, 0, none, fun _ => [], 0, none⟩, [], [], []⟩

/-- The slot with other files, and with its calls and lanes as they are. -/
def withFiles (f : ScratchFiles) (s : ScratchSlot) : ScratchSlot := { s with files := f }

/-- The slot with another state of one call, and with its files and the other calls as they are. -/
def put (i : ℕ) (c : OpenCall) (s : ScratchSlot) : ScratchSlot :=
  { s with calls := s.calls.set i c }

/-- A call goes on, with the files as they are then; this is how a step of one call changes
both its own phase and what is on disk. -/
def move (i : ℕ) (c : OpenCall) (f : ScratchFiles) (phase : OpenPhase) (s : ScratchSlot) :
    ScratchSlot :=
  (s.withFiles f).put i { c with phase := phase }

/-- The next step of a call, phase by phase as the source awaits: probe, clear, ask the
peers, fetch, and open for reading. -/
def advance (i : ℕ) (c : OpenCall) (s : ScratchSlot) : ScratchSlot :=
  let f := s.files
  match c.phase with
  | .probing => s.move i c f (if f.dest.isSome then .probingJournal else .asking)
  | .probingJournal => s.move i c f (if f.journal.isSome then .asking else .clearing)
  | .clearing => s.move i c f.unlinkDest .asking
  | .asking =>
    s.move i c f
      (if c.viaTicket = false ∧ MULTIPEER_MIN_BYTES ≤ c.wanted.blob.size then .measuring
        else .downloading)
  | .measuring => s.move i c f (.reading (f.destLen = some c.wanted.blob.size))
  | .reading sized =>
    let done := resumedPieces c.wanted.blob.size
      (f.loadStripeJournal sized c.wanted.blob.size c.wanted.hash)
    s.move i c f (if done = ∅ then .creating else .proceeding done)
  | .creating => s.move i c f.createDest (.sizing f.createdNode)
  | .sizing n => s.move i c (f.setLen n c.wanted.blob.size) .starting
  | .starting =>
    s.move i c (f.startJournal c.wanted.blob.size c.wanted.hash) (.proceeding ∅)
  | .proceeding done =>
    let left := (stripePieces c.wanted.blob.size).filter fun p => p ∉ done
    s.move i c f (if left = [] then .finishing else .striping left f.journal)
  | .striping left j => s.move i c f (if left = [] then .finishing else .striping left j)
  | .finishing => s.move i c f.unlinkJournal .fetched
  | .downloading => s.move i c f (if f.dest.isSome then .replacing else .exporting false)
  | .replacing => s.move i c f.unlinkDest (.exporting false)
  | .exporting _ => s.move i c (f.exportBlob c.wanted.blob) .fetched
  | .retrying => s.move i c f.unlinkDest (.exporting true)
  | .fetched => s.move i c f (.opening f.destLen)
  | .opening totalSize =>
    s.move i c f (match f.dest with
      | some n => .streaming totalSize n
      | none => .failed)
  | .closing => s.move i c f.unlinkDest .closingJournal
  | .closingJournal => s.move i c f.unlinkJournal .ended
  | .discarding => s.move i c f.unlinkDest .discardingJournal
  | .discardingJournal => s.move i c f.unlinkJournal .failed
  | .streaming _ _ | .ended | .failed => s

/-- A call has no tickets or finds no peers, its striped fetch fails and it falls back to a
single peer, its first export fails and it tries again, or it returns an error. -/
def fail (i : ℕ) (c : OpenCall) (s : ScratchSlot) : ScratchSlot :=
  match c.phase with
  | .striping _ _ => s.move i c s.files .downloading
  | .exporting false => s.move i c s.files .retrying
  | .probing | .asking | .downloading | .exporting true => s.move i c s.files .failed
  | _ => s

/-- A fetch is given up. What it asked for may still be done, and a fetch that was stopped is
cleaned up after in the background. -/
def giveUp (i : ℕ) (c : OpenCall) (discard : Bool) (s : ScratchSlot) : ScratchSlot :=
  let stopped := s.move i c s.files (if discard then .discarding else .failed)
  match c.phase with
  | .striping _ _ | .downloading => stopped
  | .replacing | .retrying => { stopped with late := s.late ++ [.remove] }
  | .exporting _ => { stopped with late := s.late ++ [.exportBlob c.wanted] }
  | _ => s

/-- The stream of a call is polled and yields the next bytes of its file, or ends where
there are none. -/
def read (i : ℕ) (c : OpenCall) (count : ℕ) (s : ScratchSlot) : ScratchSlot :=
  match c.phase with
  | .streaming _ n =>
    let chunk := s.files.readAt n c.yielded.length (max 1 (min count STREAM_BUFFER))
    if chunk = [] then s.move i c s.files .closing
    else s.put i { c with yielded := c.yielded ++ chunk }
  | _ => s

/-- The stream of a call is dropped before its end, and its clean-up then does not run. -/
def drop (i : ℕ) (c : OpenCall) (s : ScratchSlot) : ScratchSlot :=
  match c.phase with
  | .streaming _ _ => s.move i c s.files .failed
  | _ => s

/-- A lane of a call opens the scratch file, and is gone if there is none. -/
def openLane (i : ℕ) (c : OpenCall) (s : ScratchSlot) : ScratchSlot :=
  match c.phase, s.files.dest with
  | .striping _ j, some n => { s with lanes := s.lanes ++ [⟨i, c.wanted, n, j, .idle⟩] }
  | _, _ => s

/-- A lane goes on, with the files as they are then; as for a call, the other lanes and the
calls of the slot are not changed by it. -/
def moveLane (k : ℕ) (l : StripeLane) (f : ScratchFiles) (task : LaneTask) (s : ScratchSlot) :
    ScratchSlot :=
  { s.withFiles f with lanes := s.lanes.set k { l with task := task } }

/-- The pieces that a call has left to fetch, which its lanes share. -/
def leftOf (i : ℕ) (s : ScratchSlot) : List Piece :=
  match (s.calls[i]?).map OpenCall.phase with
  | some (.striping left _) => left
  | _ => []

/-- A piece of a call is done, and its lanes have one fewer to fetch. -/
def completePiece (i : ℕ) (p : Piece) (s : ScratchSlot) : ScratchSlot :=
  (s.calls[i]?).elim s fun c =>
    match c.phase with
    | .striping left j => s.move i c s.files (.striping (left.erase p) j)
    | _ => s

/-- What a lane does: take a piece, write leaves of it, finish it, note it in the journal,
give it back, or leave. -/
def laneStep (k : ℕ) (l : StripeLane) (e : ScratchEvent) (s : ScratchSlot) : ScratchSlot :=
  let b := l.wanted.blob
  match e, l.task with
  | .take _ p, .idle => if p ∈ s.leftOf l.call then s.moveLane k l s.files (.fetching p) else s
  | .leaf _ start stop, .fetching p =>
    if p.1 * BLAKE3_CHUNK ≤ start ∧ stop ≤ min (p.2 * BLAKE3_CHUNK) b.size then
      s.moveLane k l (s.files.writeRange l.node b start stop) (.fetching p)
    else s
  | .piece _, .fetching p =>
    s.moveLane k l
      (s.files.writeRange l.node b (p.1 * BLAKE3_CHUNK) (min (p.2 * BLAKE3_CHUNK) b.size))
      (.written p)
  | .requeue _, .fetching _ => s.moveLane k l s.files .idle
  | .note _, .written p =>
    (s.moveLane k l (s.files.appendLine l.journal p) .idle).completePiece l.call p
  | .leave _, _ => s.moveLane k l s.files .gone
  | _, _ => s

/-- What a fetch that was given up asked for is done: the removal unlinks the destination,
and the export writes the whole blob there. -/
def lateStep (l : LateStep) (f : ScratchFiles) : ScratchFiles :=
  match l with
  | .remove => f.unlinkDest
  | .exportBlob t => f.exportBlob t.blob

/-- A call begins. One that is given no digest fails as one that finds no peers. A text that
does not have the length of a digest is no blob's hash, and the ticket says which blob is
fetched. -/
def begin {D : Digests} (W : Swarm D) (blobHash : Text) (ticket : Bytes) (s : ScratchSlot) :
    ScratchSlot :=
  let viaTicket := decide (blobHash.utf8Len ≠ 64)
  (if viaTicket then some ticket else parseHex32 blobHash).elim s fun hash =>
    (W.blob hash).elim s fun b =>
      { s with calls := s.calls ++ [⟨blobHash, ⟨hash, b⟩, viaTicket, .probing, []⟩] }

/-- What an event does at a scratch path; an event for a call or a lane that is not there
does nothing. -/
def step {D : Digests} (W : Swarm D) (s : ScratchSlot) (e : ScratchEvent) : ScratchSlot :=
  match e with
  | .begin blobHash ticket => s.begin W blobHash ticket
  | .advance i => (s.calls[i]?).elim s fun c => s.advance i c
  | .fail i => (s.calls[i]?).elim s fun c => s.fail i c
  | .giveUp i discard => (s.calls[i]?).elim s fun c => s.giveUp i c discard
  | .read i count => (s.calls[i]?).elim s fun c => s.read i c count
  | .drop i => (s.calls[i]?).elim s fun c => s.drop i c
  | .lane i => (s.calls[i]?).elim s fun c => s.openLane i c
  | .take k _ | .leaf k _ _ | .piece k | .requeue k | .note k | .leave k =>
    (s.lanes[k]?).elim s fun l => s.laneStep k l e
  | .late k =>
    (s.late[k]?).elim s fun l =>
      { s with files := lateStep l s.files, late := s.late.eraseIdx k }
  | .forget k => { s with late := s.late.eraseIdx k }

/-! ## Careful steps -/

/-- A fetch made the scratch file anew and did not start its journal yet. -/
def Exempt (s : ScratchSlot) : Prop := ∃ c ∈ s.calls, c.phase.making = true

instance (s : ScratchSlot) : Decidable s.Exempt :=
  inferInstanceAs (Decidable (∃ c ∈ s.calls, c.phase.making = true))

/-- What the calls, lanes and late steps that are under way are after. -/
def users (s : ScratchSlot) : List Wanted :=
  (s.calls.filter fun c => c.phase.active).map OpenCall.wanted ++
    ((s.lanes.filter fun l => l.task ≠ .gone).map StripeLane.wanted ++
      s.late.filterMap LateStep.wanted)

/-- The scratch file can be made anew without harm: no lane is left, no other call writes the
file or has yet to read it, and no stream reads the one that would be cut. -/
def Free (s : ScratchSlot) : Prop :=
  (∀ l ∈ s.lanes, l.task = .gone) ∧
    ∀ c ∈ s.calls, c.phase.counting = false ∧
      (c.phase.streams = none ∨ c.phase.streams ≠ s.files.dest)

instance (s : ScratchSlot) : Decidable s.Free :=
  inferInstanceAs (Decidable ((∀ l ∈ s.lanes, l.task = .gone) ∧
    ∀ c ∈ s.calls, c.phase.counting = false ∧
      (c.phase.streams = none ∨ c.phase.streams ≠ s.files.dest)))

/-- **A step that does not get in the way of another fetch.** A fetch begins for the blob
that a digest names, while none of another blob is under way under the same name; it makes
the scratch file anew only where that does no harm; and it does not read the old journal of a
file that another fetch has just made. -/
def Careful (s : ScratchSlot) (e : ScratchEvent) : Prop :=
  match e with
  | .begin blobHash _ => blobHash.utf8Len = 64 ∧
      ∀ t ∈ s.users, parseHex32 blobHash = some t.hash
  | .advance i => ∀ c ∈ s.calls[i]?,
      (c.phase = .creating → s.Free) ∧ (c.phase = .reading true → ¬ s.Exempt)
  | _ => True

instance decidableCareful (s : ScratchSlot) : ∀ e, Decidable (s.Careful e)
  | .begin blobHash _ => inferInstanceAs (Decidable (blobHash.utf8Len = 64 ∧
      ∀ t ∈ s.users, parseHex32 blobHash = some t.hash))
  | .advance i => inferInstanceAs (Decidable (∀ c ∈ s.calls[i]?,
      (c.phase = .creating → s.Free) ∧ (c.phase = .reading true → ¬ s.Exempt)))
  | .fail _ | .giveUp _ _ | .read _ _ | .drop _ | .lane _ | .take _ _ | .leaf _ _ _ | .piece _
  | .requeue _ | .note _ | .leave _ | .late _ | .forget _ => isTrue trivial

end ScratchSlot

/-! ## The scratch directory -/

/-- The scratch directory, by the names of scratch files; each scratch path is a slot of its
own, and what happens at one leaves the others alone. -/
abbrev ScratchDir := Text → ScratchSlot

/-- An event, and the scratch file it is about, which is how the events of several downloads
are interleaved in one trace. -/
structure DirEvent where
  path : Text
  event : ScratchEvent

/-- A call uses the scratch file of its blob; everything else stays where it began. -/
def DirEvent.slot (e : DirEvent) : Text :=
  match e.event with
  | .begin blobHash _ => scratchPath blobHash
  | _ => e.path

namespace ScratchDir

/-- The directory before anything was opened, fresh under every name. -/
def fresh : ScratchDir := fun _ => ScratchSlot.fresh

/-- An event concerns one slot of the directory; the others stay as they are. -/
def step {D : Digests} (W : Swarm D) (d : ScratchDir) (e : DirEvent) : ScratchDir :=
  Function.update d e.slot ((d e.slot).step W e.event)

/-- A step that does not get in the way of another fetch. -/
def Careful (d : ScratchDir) (e : DirEvent) : Prop := (d e.slot).Careful e.event

instance (d : ScratchDir) (e : DirEvent) : Decidable (Careful d e) :=
  inferInstanceAs (Decidable ((d e.slot).Careful e.event))

end ScratchDir

end Atlas
