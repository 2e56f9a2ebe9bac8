import Atlas.ListSum
import Atlas.Stripes
import Atlas.Text
import Atlas.Transition
import Mathlib.Data.Multiset.Count
import Mathlib.Algebra.Order.Group.Multiset

/-!
# A striped fetch

A blob is fetched from many peers at once. Its pieces wait in a queue that all lanes of
all peers share; a lane takes a piece out, fetches it, and either counts it as done or
puts it back. Peers join while this goes on, when the providers are asked for again, and
leave when they cannot be reached or fail too often.

A piece changes hands often, and nothing but the queue, the lanes and three counters
says where it is. `stripes_conserved` is what they say in every state: a piece that is
left to fetch is in one place only, and the counters count the pieces that are done.
-/

namespace Atlas

open ListSum Transition

/-! ## State -/

/-- Pieces one peer keeps in flight at once, each in a lane of its own. -/
def PIPELINE_PER_PEER : ℕ := 3

/-- Consecutive failed pieces before a peer is dropped; a piece that works sets the count back. -/
def PEER_FAIL_BUDGET : ℕ := 3

/-- The most peers that a blob is fetched from at a time. -/
def MAX_STRIPE_PEERS : ℕ := 16

/-- How often an idle lane looks at an empty queue before it gives up. -/
def MAX_IDLE_POLLS : ℕ := 200

/-- Where a lane is, with the piece it fetches or the polls it has idled through. -/
inductive Lane where
  /-- Opening the file it writes to. -/
  | opening
  /-- About to see whether to go on. -/
  | checking (idlePolls : ℕ)
  /-- About to look at the queue. -/
  | popping (idlePolls : ℕ)
  /-- Fetching a piece that failed this often before. -/
  | fetching (piece : Piece) (attempts : ℕ)
  | returned
  deriving DecidableEq, Repr

/-- The task of one peer, whose lanes share its connection and its budget of failures. -/
structure PeerTask where
  nodeId : Text
  /-- Consecutive failures, counted over all its lanes. -/
  fails : ℕ
  /-- Its lanes, once it is connected. -/
  lanes : Option (List Lane)
  deriving DecidableEq, Repr

/-- How a fetch ends: complete, cancelled, or given up. -/
inductive FetchEnd where
  | ok
  | cancelled
  | notFound
  deriving DecidableEq, Repr

/-- A striped fetch under way: what its lanes share, its workers, and how it ended. -/
structure StripedFetch where
  size : ℕ
  /-- The pieces that wait, with the attempts at each. -/
  queue : List (Piece × ℕ)
  piecesLeft : ℕ
  bytesDone : ℕ
  /-- Striping cannot finish. -/
  fatal : Bool
  /-- Attempt ceiling per piece. -/
  maxAttempts : ℕ
  cancel : Bool
  /-- The peers in the swarm. -/
  active : Finset Text
  workers : List PeerTask
  /-- The pieces the lanes completed, as they are appended to the journal. -/
  completed : List Piece
  /-- The pieces that failed too often. -/
  dropped : List Piece
  ended : Option FetchEnd

/-- What happens to a fetch: connections come about or not, and lanes take steps. -/
inductive StripeEvent where
  /-- The connection to a worker's peer is there, or not. -/
  | connect (worker : ℕ) (ok : Bool)
  /-- A lane takes its next step; what it opens or fetches works, or fails or times out. -/
  | lane (worker lane : ℕ) (ok : Bool)
  /-- A worker whose lanes have all returned is done. -/
  | leave (worker : ℕ)
  /-- A refresh of the providers arrives. -/
  | refresh (nodes : List Text)
  /-- The driver looks at the fetch, and may find it stalled. -/
  | tick (stalled : Bool)
  | cancel
  /-- The last worker is gone. -/
  | finish
  deriving DecidableEq, Repr

namespace StripedFetch

/-! ## The shared state -/

/-- A piece is there: its bytes are counted, and one piece fewer is left. -/
def completePiece (piece : Piece) (s : StripedFetch) : StripedFetch :=
  { s with
    bytesDone := s.bytesDone + pieceBytes s.size piece
    piecesLeft := s.piecesLeft - 1
    completed := s.completed ++ [piece] }

/-- A piece goes back to the queue, unless it failed too often. -/
def requeuePiece (piece : Piece) (attempts : ℕ) (s : StripedFetch) : StripedFetch :=
  if s.maxAttempts ≤ attempts then
    { s with fatal := true, dropped := s.dropped ++ [piece] }
  else { s with queue := s.queue ++ [(piece, attempts)] }

/-- Add one peer, unless it is in the swarm already; a new worker has no failures yet and
has not started its lanes. -/
def spawnStripePeer (nodeId : Text) (s : StripedFetch) : StripedFetch :=
  if nodeId ∈ s.active then s
  else
    { s with
      active := insert nodeId s.active
      workers := s.workers ++ [⟨nodeId, 0, none⟩] }

/-! ## Steps -/

/-- One step of a lane: what it does to the shared state, to the failures of its peer and
to the lane. -/
def laneStep (ok : Bool) (fails : ℕ) (s : StripedFetch) : Lane → StripedFetch × ℕ × Lane
  | .opening => (s, fails, if ok then .checking 0 else .returned)
  | .checking idlePolls =>
    if s.fatal || s.cancel || PEER_FAIL_BUDGET ≤ fails then (s, fails, .returned)
    else (s, fails, .popping idlePolls)
  | .popping idlePolls =>
    match s.queue with
    | (piece, attempts) :: rest => ({ s with queue := rest }, fails, .fetching piece attempts)
    | [] =>
      -- another lane may put a failed piece back
      if s.piecesLeft = 0 ∨ MAX_IDLE_POLLS < idlePolls + 1 then (s, fails, .returned)
      else (s, fails, .checking (idlePolls + 1))
  | .fetching piece attempts =>
    if ok then (s.completePiece piece, 0, .checking 0)
    else (s.requeuePiece piece (attempts + 1), fails + 1, .checking 0)
  | .returned => (s, fails, .returned)

/-- A worker is gone, and its peer may join again; the shared queue and the counters stay as
they are. -/
def removeWorker (worker : ℕ) (nodeId : Text) (s : StripedFetch) : StripedFetch :=
  { s with active := s.active.erase nodeId, workers := s.workers.eraseIdx worker }

/-- New peers join, up to a number of peers, which counts those in the swarm already; the
others are not taken. -/
def joinPeers : List Text → StripedFetch → StripedFetch
  | [], s => s
  | nodeId :: rest, s =>
    if MAX_STRIPE_PEERS ≤ s.active.card then s else joinPeers rest (s.spawnStripePeer nodeId)

/-- The peers of a refresh that are not in the swarm raise the attempt ceiling and join. -/
def refresh (nodes : List Text) (s : StripedFetch) : StripedFetch :=
  let fresh := nodes.eraseDups.filter (· ∉ s.active)
  if fresh.isEmpty then s
  else
    joinPeers fresh
      { s with maxAttempts := max s.maxAttempts (s.active.card + fresh.length + 2) }

/-- A worker connects to its peer and starts its lanes, or is gone. -/
def connect (worker : ℕ) (ok : Bool) (s : StripedFetch) : StripedFetch :=
  match s.workers[worker]? with
  | none => s
  | some peer =>
    match peer.lanes with
    | some _ => s
    | none =>
      if ok then
        let lanes := List.replicate PIPELINE_PER_PEER Lane.opening
        { s with workers := s.workers.set worker ({ peer with lanes := some lanes }) }
      else s.removeWorker worker peer.nodeId

/-- A lane of a worker takes its next step: the queue, the counters and the failures of the
peer are all settled by one step. -/
def moveLane (worker lane : ℕ) (ok : Bool) (s : StripedFetch) : StripedFetch :=
  match s.workers[worker]? with
  | none => s
  | some peer =>
    match peer.lanes with
    | none => s
    | some lanes =>
      match lanes[lane]? with
      | none => s
      | some l =>
        let next := s.laneStep ok peer.fails l
        let peer' := { peer with fails := next.2.1, lanes := some (lanes.set lane next.2.2) }
        { next.1 with workers := s.workers.set worker peer' }

/-- A worker whose lanes have all returned is gone; it does nothing as long as one of them
is at work. -/
def leave (worker : ℕ) (s : StripedFetch) : StripedFetch :=
  match s.workers[worker]? with
  | none => s
  | some peer =>
    match peer.lanes with
    | none => s
    | some lanes =>
      if ∀ l ∈ lanes, l = .returned then s.removeWorker worker peer.nodeId else s

/-- The driver returns when the fetch is cancelled, and gives up when it is stalled. -/
def tick (stalled : Bool) (s : StripedFetch) : StripedFetch :=
  if s.cancel then { s with ended := some .cancelled }
  else if stalled then { s with fatal := true, ended := some .notFound }
  else s

/-- The driver returns when the last worker is gone, and reports success only if no piece is
left. -/
def finish (s : StripedFetch) : StripedFetch :=
  if s.workers.isEmpty then
    { s with ended := some (if s.piecesLeft = 0 then .ok else .notFound) }
  else s

/-- What an event does. Nothing happens to a fetch that has ended. -/
def step (s : StripedFetch) (e : StripeEvent) : StripedFetch :=
  if s.ended.isSome then s
  else match e with
    | .connect worker ok => s.connect worker ok
    | .lane worker lane ok => s.moveLane worker lane ok
    | .leave worker => s.leave worker
    | .refresh nodes => s.refresh nodes
    | .tick stalled => s.tick stalled
    | .cancel => { s with cancel := true }
    | .finish => s.finish

end StripedFetch

/-- The pieces that are taken as done: those of the journal, if they are all on the grid. -/
def resumedPieces (size : ℕ) (journaled : Finset Piece) : Finset Piece :=
  if ∀ p ∈ journaled, p ∈ stripePieces size then journaled else ∅

/-- The pieces that are left to fetch, those of the blob that are not resumed. -/
def remainingPieces (size : ℕ) (journaled : Finset Piece) : List Piece :=
  (stripePieces size).filter fun p => p ∉ resumedPieces size journaled

/-- The bytes that need not be fetched, those of the pieces that are resumed. -/
def resumedBytes (size : ℕ) (journaled : Finset Piece) : ℕ :=
  ∑ p ∈ resumedPieces size journaled, pieceBytes size p

/-- A fetch as it starts, with what the journal of an earlier one vouches for. -/
def fetchStriped (size : ℕ) (journaled : Finset Piece) (nodes : List Text) : StripedFetch :=
  let pieces := remainingPieces size journaled
  let s : StripedFetch :=
    { size := size
      queue := pieces.map fun p => (p, 0)
      piecesLeft := pieces.length
      bytesDone := resumedBytes size journaled
      fatal := false
      maxAttempts := max (nodes.length + 2) 6
      cancel := false
      active := ∅
      workers := []
      completed := []
      dropped := []
      ended := none }
  if pieces.isEmpty then { s with ended := some .ok }
  else nodes.foldl (fun s nodeId => s.spawnStripePeer nodeId) s

/-! ## Where the pieces are -/

/-- What a lane has in flight, one piece or nothing. -/
def Lane.held : Lane → Multiset Piece
  | .fetching piece _ => {piece}
  | _ => 0

/-- What the lanes of a peer have in flight, over all its lanes; a peer without lanes has
nothing. -/
def PeerTask.held (peer : PeerTask) : Multiset Piece := ((peer.lanes.getD []).map Lane.held).sum

theorem PeerTask.held_eq_zero {peer : PeerTask}
    (h : ∀ l ∈ peer.lanes.getD [], l.held = 0) : peer.held = 0 := by
  refine List.sum_eq_zero fun held hmem => ?_
  obtain ⟨l, hl, rfl⟩ := List.mem_map.mp hmem
  exact h l hl

namespace StripedFetch

/-- What is in flight, once for each lane it is in flight at. -/
def held (s : StripedFetch) : Multiset Piece := (s.workers.map PeerTask.held).sum

/-- What waits in the queue, without the counts of attempts. -/
def queued (s : StripedFetch) : Multiset Piece := s.queue.map Prod.fst

/-- What is in the shared state: waiting, completed or given up; together with what is in
flight these are all the pieces of the fetch. -/
def settled (s : StripedFetch) : Multiset Piece := s.queued + ↑s.completed + ↑s.dropped

/-- The counters are in step with the pieces the lanes completed, and a fetch that succeeded
has none left. -/
structure Counted (size : ℕ) (remaining : List Piece) (resumed : ℕ) (s : StripedFetch) :
    Prop where
  size_eq : s.size = size
  left : s.piecesLeft + s.completed.length = remaining.length
  bytes : s.bytesDone = resumed + (s.completed.map (pieceBytes size)).sum
  dropped : s.dropped ≠ [] → s.fatal = true
  ok : s.ended = some .ok → s.piecesLeft = 0

/-- **The pieces are conserved**: those that were left to fetch are in the queue, at the
lanes, completed or given up, and the counters are in step. -/
structure Conserved (size : ℕ) (remaining : List Piece) (resumed : ℕ) (s : StripedFetch) :
    Prop extends Counted size remaining resumed s where
  pieces : s.settled + s.held = ↑remaining

namespace Conserved

variable {size resumed : ℕ} {remaining : List Piece} {s s' : StripedFetch}

/-- Nothing but the workers changes, and they hold the same pieces. -/
theorem ofWorkers (h : s.Conserved size remaining resumed) {active : Finset Text}
    {workers : List PeerTask} {maxAttempts : ℕ}
    (hheld : (workers.map PeerTask.held).sum = s.held) :
    ({ s with active := active, workers := workers, maxAttempts := maxAttempts } :
      StripedFetch).Conserved size remaining resumed where
  size_eq := h.size_eq
  left := h.left
  bytes := h.bytes
  dropped := h.dropped
  ok := h.ok
  pieces := by
    show s.settled + (workers.map PeerTask.held).sum = _
    rw [hheld]
    exact h.pieces

/-- A peer that joins holds nothing yet. -/
theorem spawnStripePeer (h : s.Conserved size remaining resumed) (nodeId : Text) :
    (s.spawnStripePeer nodeId).Conserved size remaining resumed := by
  unfold StripedFetch.spawnStripePeer
  split
  · exact h
  · refine h.ofWorkers ?_
    rw [List.map_append, List.sum_append]
    exact add_zero _

theorem joinPeers (h : s.Conserved size remaining resumed) (nodes : List Text) :
    (StripedFetch.joinPeers nodes s).Conserved size remaining resumed := by
  induction nodes generalizing s with
  | nil => exact h
  | cons nodeId rest ih =>
    unfold StripedFetch.joinPeers
    split
    · exact h
    · exact ih (h.spawnStripePeer nodeId)

theorem refresh (h : s.Conserved size remaining resumed) (nodes : List Text) :
    (s.refresh nodes).Conserved size remaining resumed := by
  unfold StripedFetch.refresh
  dsimp only
  split
  · exact h
  · exact (h.ofWorkers rfl).joinPeers _

/-- A worker that goes holds nothing any more. -/
theorem removeWorker (h : s.Conserved size remaining resumed) {worker : ℕ} {peer : PeerTask}
    (hpeer : s.workers[worker]? = some peer) (hheld : peer.held = 0) :
    (s.removeWorker worker peer.nodeId).Conserved size remaining resumed := by
  have hsum := sum_map_eraseIdx PeerTask.held hpeer
  rw [hheld, add_zero] at hsum
  exact h.ofWorkers hsum

end Conserved

/-- What a step of a lane changes in the shared state: pieces go from the queue to the
lane, and from the lane to those completed or back. -/
theorem laneStep_settled (s : StripedFetch) (ok : Bool) (fails : ℕ) (l : Lane) :
    (s.laneStep ok fails l).1.settled + (s.laneStep ok fails l).2.2.held =
      s.settled + l.held := by
  cases l with
  | opening => cases ok <;> rfl
  | checking idlePolls =>
    simp only [laneStep]
    split <;> rfl
  | popping idlePolls =>
    rcases hqueue : s.queue with _ | ⟨⟨piece, attempts⟩, rest⟩
    · simp only [laneStep, hqueue]
      split <;> rfl
    · simp only [laneStep, hqueue]
      have hqueued : s.queued = {piece} + ↑(rest.map Prod.fst) := by
        unfold queued
        rw [hqueue]
        rfl
      show (↑(rest.map Prod.fst) + ↑s.completed + ↑s.dropped : Multiset Piece) + {piece} =
        (s.queued + ↑s.completed + ↑s.dropped) + 0
      rw [hqueued]
      abel
  | fetching piece attempts =>
    cases ok with
    | true =>
      show (s.queued + ↑(s.completed ++ [piece]) + ↑s.dropped) + 0 =
        (s.queued + ↑s.completed + ↑s.dropped) + {piece}
      rw [← Multiset.coe_add, Multiset.coe_singleton]
      abel
    | false =>
      show (s.requeuePiece piece (attempts + 1)).settled + 0 = s.settled + {piece}
      unfold requeuePiece
      split
      · show (s.queued + ↑s.completed + ↑(s.dropped ++ [piece])) + 0 =
          (s.queued + ↑s.completed + ↑s.dropped) + {piece}
        rw [← Multiset.coe_add, Multiset.coe_singleton]
        abel
      · have hqueued : (((s.queue ++ [(piece, attempts + 1)]).map Prod.fst : List Piece) :
            Multiset Piece) = s.queued + {piece} := by
          rw [List.map_append, ← Multiset.coe_add]
          rfl
        show (↑((s.queue ++ [(piece, attempts + 1)]).map Prod.fst) + ↑s.completed + ↑s.dropped :
          Multiset Piece) + 0 = (s.queued + ↑s.completed + ↑s.dropped) + {piece}
        rw [hqueued]
        abel
  | returned => rfl

/-- The counters stay in step, if a lane has a piece in flight only while there are
pieces left. -/
theorem Counted.laneStep {size resumed : ℕ} {remaining : List Piece} {s : StripedFetch}
    (h : s.Counted size remaining resumed) (ok : Bool) (fails : ℕ) {l : Lane}
    (hleft : l.held ≠ 0 → 0 < s.piecesLeft) :
    (s.laneStep ok fails l).1.Counted size remaining resumed := by
  -- only a fetched piece moves the counters, and it moves the three of them together; a piece that
  -- failed is queued again or dropped, and counts as neither
  cases l with
  | opening => exact h
  | checking idlePolls =>
    simp only [StripedFetch.laneStep]
    split <;> exact h
  | popping idlePolls =>
    rcases hqueue : s.queue with _ | ⟨⟨piece, attempts⟩, rest⟩
    · simp only [StripedFetch.laneStep, hqueue]
      split <;> exact h
    · simp only [StripedFetch.laneStep, hqueue]
      exact ⟨h.size_eq, h.left, h.bytes, h.dropped, h.ok⟩
  | fetching piece attempts =>
    have hpos : 0 < s.piecesLeft := hleft (Multiset.singleton_ne_zero piece)
    cases ok with
    | true =>
      refine ⟨h.size_eq, ?_, ?_, h.dropped, fun hend => ?_⟩
      · show s.piecesLeft - 1 + (s.completed ++ [piece]).length = _
        rw [List.length_append, List.length_singleton, ← h.left]
        omega
      · show s.bytesDone + pieceBytes s.size piece = _
        have hsum : ((s.completed ++ [piece]).map (pieceBytes size)).sum =
            (s.completed.map (pieceBytes size)).sum + pieceBytes size piece := by
          rw [List.map_append, List.sum_append]
          rfl
        rw [h.bytes, h.size_eq, add_assoc]
        exact congrArg (resumed + ·) hsum.symm
      · show s.piecesLeft - 1 = 0
        rw [h.ok hend]
    | false =>
      show (s.requeuePiece piece (attempts + 1)).Counted size remaining resumed
      unfold requeuePiece
      split
      · exact ⟨h.size_eq, h.left, h.bytes, fun _ => rfl, h.ok⟩
      · exact ⟨h.size_eq, h.left, h.bytes, h.dropped, h.ok⟩
  | returned => exact h

namespace Conserved

variable {size resumed : ℕ} {remaining : List Piece} {s s' : StripedFetch}

/-- What is in flight is among the pieces that are left. -/
theorem card_held_le (h : s.Conserved size remaining resumed) :
    s.held.card ≤ s.piecesLeft := by
  have hcard := congrArg Multiset.card h.pieces
  rw [Multiset.card_add, Multiset.coe_card, ← h.left] at hcard
  have hsettled : s.completed.length ≤ s.settled.card := by
    unfold settled
    rw [Multiset.card_add, Multiset.card_add, Multiset.coe_card]
    omega
  omega

/-- **A step of a lane conserves the pieces.** -/
theorem laneStep (h : s.Conserved size remaining resumed) (ok : Bool) {worker lane : ℕ}
    {peer : PeerTask} (hpeer : s.workers[worker]? = some peer) {lanes : List Lane}
    (hlanes : peer.lanes = some lanes) {l : Lane} (hl : lanes[lane]? = some l) (fails : ℕ) :
    ({ (s.laneStep ok peer.fails l).1 with
        workers := s.workers.set worker
          { peer with
            fails := fails
            lanes := some (lanes.set lane (s.laneStep ok peer.fails l).2.2) } } :
      StripedFetch).Conserved size remaining resumed := by
  generalize hnext : s.laneStep ok peer.fails l = next
  have hpeerHeld : peer.held = (lanes.map Lane.held).sum := by
    unfold PeerTask.held
    rw [hlanes]
    rfl
  -- the lane's share of what its peer holds, and the peer's share of all
  have hlane := sum_map_set Lane.held hl next.2.2
  have hworker := sum_map_set PeerTask.held hpeer
    { peer with fails := fails, lanes := some (lanes.set lane next.2.2) }
  have hleft : l.held ≠ 0 → 0 < s.piecesLeft := by
    intro hne
    have hle : l.held ≤ s.held := by
      refine le_trans ?_ (le_sum_map PeerTask.held hpeer)
      rw [hpeerHeld]
      exact le_sum_map Lane.held hl
    have hcard : 0 < l.held.card := Multiset.card_pos.mpr hne
    exact lt_of_lt_of_le hcard (le_trans (Multiset.card_le_card hle) h.card_held_le)
  have hcounted := h.toCounted.laneStep ok peer.fails hleft
  rw [hnext] at hcounted
  refine ⟨⟨hcounted.size_eq, hcounted.left, hcounted.bytes, hcounted.dropped, hcounted.ok⟩, ?_⟩
  have hsettled := laneStep_settled s ok peer.fails l
  rw [hnext] at hsettled
  refine Eq.trans (sum_handover hworker ?_ hsettled) h.pieces
  rw [hpeerHeld]
  exact hlane

theorem connect (h : s.Conserved size remaining resumed) (worker : ℕ) (ok : Bool) :
    (s.connect worker ok).Conserved size remaining resumed := by
  unfold StripedFetch.connect
  split
  · exact h
  rename_i peer hpeer
  split
  · exact h
  rename_i hlanes
  have hheld : peer.held = 0 := by
    refine PeerTask.held_eq_zero fun l hl => ?_
    rw [hlanes] at hl
    cases hl
  split
  · have hsum := sum_map_set PeerTask.held hpeer
      { peer with lanes := some (List.replicate PIPELINE_PER_PEER .opening) }
    have hopening : PeerTask.held
        { peer with lanes := some (List.replicate PIPELINE_PER_PEER .opening) } = 0 := by
      refine PeerTask.held_eq_zero fun l hl => ?_
      rw [List.eq_of_mem_replicate hl]
      rfl
    rw [hheld, hopening, add_zero, add_zero] at hsum
    exact h.ofWorkers hsum
  · exact h.removeWorker hpeer hheld

theorem moveLane (h : s.Conserved size remaining resumed) (worker lane : ℕ) (ok : Bool) :
    (s.moveLane worker lane ok).Conserved size remaining resumed := by
  unfold StripedFetch.moveLane
  split
  · exact h
  rename_i peer hpeer
  split
  · exact h
  rename_i lanes hlanes
  split
  · exact h
  rename_i l hl
  exact h.laneStep ok hpeer hlanes hl _

theorem leave (h : s.Conserved size remaining resumed) (worker : ℕ) :
    (s.leave worker).Conserved size remaining resumed := by
  unfold StripedFetch.leave
  split
  · exact h
  rename_i peer hpeer
  split
  · exact h
  rename_i lanes hlanes
  split
  · rename_i hreturned
    refine h.removeWorker hpeer (PeerTask.held_eq_zero fun l hl => ?_)
    rw [hlanes] at hl
    rw [hreturned l hl]
    rfl
  · exact h

theorem tick (h : s.Conserved size remaining resumed) (stalled : Bool) :
    (s.tick stalled).Conserved size remaining resumed := by
  unfold StripedFetch.tick
  split
  · exact ⟨⟨h.size_eq, h.left, h.bytes, h.dropped, nofun⟩, h.pieces⟩
  split
  · exact ⟨⟨h.size_eq, h.left, h.bytes, fun _ => rfl, nofun⟩, h.pieces⟩
  · exact h

theorem finish (h : s.Conserved size remaining resumed) :
    s.finish.Conserved size remaining resumed := by
  unfold StripedFetch.finish
  split
  · refine ⟨⟨h.size_eq, h.left, h.bytes, h.dropped, fun hend => ?_⟩, h.pieces⟩
    replace hend : some (if s.piecesLeft = 0 then FetchEnd.ok else .notFound) = some .ok := hend
    by_cases hleft : s.piecesLeft = 0
    · exact hleft
    · rw [if_neg hleft] at hend
      cases hend
  · exact h

/-- **An event conserves the pieces.** -/
theorem step (h : s.Conserved size remaining resumed) (e : StripeEvent) :
    (s.step e).Conserved size remaining resumed := by
  unfold StripedFetch.step
  split
  · exact h
  cases e with
  | connect worker ok => exact h.connect worker ok
  | lane worker lane ok => exact h.moveLane worker lane ok
  | leave worker => exact h.leave worker
  | refresh nodes => exact h.refresh nodes
  | tick stalled => exact h.tick stalled
  | cancel => exact ⟨⟨h.size_eq, h.left, h.bytes, h.dropped, h.ok⟩, h.pieces⟩
  | finish => exact h.finish

/-- A run conserves the pieces. -/
theorem run (h : s.Conserved size remaining resumed) (events : List StripeEvent) :
    (events.foldl StripedFetch.step s).Conserved size remaining resumed := by
  induction events generalizing s with
  | nil => exact h
  | cons e events ih => exact ih (h.step e)

end Conserved

/-! ## Runs -/

variable {size : ℕ} {journaled : Finset Piece} {nodes : List Text}

/-- A fetch starts with what is left to fetch in the queue. -/
theorem conserved_fetchStriped :
    (fetchStriped size journaled nodes).Conserved size (remainingPieces size journaled)
      (resumedBytes size journaled) := by
  have hqueued (l : List Piece) : (l.map fun p => (p, 0)).map Prod.fst = l := by
    rw [List.map_map]
    exact List.map_id l
  unfold fetchStriped
  dsimp only
  split
  · rename_i hempty
    have hnil : remainingPieces size journaled = [] := List.isEmpty_iff.mp hempty
    refine ⟨⟨rfl, rfl, rfl, fun hne => absurd rfl hne, fun _ => ?_⟩, ?_⟩
    · show (remainingPieces size journaled).length = 0
      rw [hnil]
      rfl
    · rw [hnil]
      rfl
  · generalize hs : StripedFetch.mk _ _ _ _ _ _ _ _ _ _ _ _ = s
    have hstart : s.Conserved size (remainingPieces size journaled)
        (resumedBytes size journaled) := by
      subst hs
      refine ⟨⟨rfl, rfl, rfl, fun hne => absurd rfl hne, nofun⟩, ?_⟩
      show (((remainingPieces size journaled).map fun p => (p, 0)).map Prod.fst : Multiset Piece) +
        0 + 0 + 0 = _
      rw [hqueued, add_zero, add_zero, add_zero]
    clear hs
    induction nodes generalizing s with
    | nil => exact hstart
    | cons nodeId nodes ih => exact ih _ (hstart.spawnStripePeer nodeId)

namespace Conserved

variable {resumed : ℕ} {remaining : List Piece} {s : StripedFetch}

/-- Without a fatal error no piece was given up. -/
theorem pieces_of_not_fatal (h : s.Conserved size remaining resumed) (hfatal : s.fatal = false) :
    s.queued + s.held + ↑s.completed = (↑remaining : Multiset Piece) := by
  have hdropped : s.dropped = [] := by
    by_contra hne
    rw [h.dropped hne] at hfatal
    cases hfatal
  have hpieces := h.pieces
  unfold settled at hpieces
  rw [hdropped] at hpieces
  rw [← hpieces]
  show _ = s.queued + ↑s.completed + 0 + s.held
  abel

/-- The pieces completed are among those that were left. -/
theorem completed_le (h : s.Conserved size remaining resumed) :
    (↑s.completed : Multiset Piece) ≤ ↑remaining := by
  rw [← h.pieces]
  unfold settled
  exact le_trans (Multiset.le_add_left _ s.queued)
    (le_trans (Multiset.le_add_right _ ↑s.dropped) (Multiset.le_add_right _ s.held))

/-- The pieces left are those not completed. -/
theorem piecesLeft_eq (h : s.Conserved size remaining resumed) (hnodup : remaining.Nodup) :
    s.piecesLeft = (remaining.filter (· ∉ s.completed)).length := by
  have hle := h.completed_le
  have hcompleted : (remaining.filter (· ∈ s.completed)).Perm s.completed := by
    refine (List.perm_ext_iff_of_nodup (hnodup.filter _) ?_).mpr fun p => ?_
    · exact Multiset.coe_nodup.mp (Multiset.nodup_of_le hle (Multiset.coe_nodup.mpr hnodup))
    · rw [List.mem_filter, decide_eq_true_iff]
      exact and_iff_right_of_imp fun hp => Multiset.mem_coe.mp (Multiset.mem_of_le hle hp)
  have hsplit := List.length_eq_length_filter_add (l := remaining) (· ∈ s.completed)
  rw [hcompleted.length_eq, ← h.left, add_comm] at hsplit
  refine (Nat.add_left_cancel hsplit).trans (congrArg List.length ?_)
  exact List.filter_congr fun p _ => decide_not.symm

/-- If no piece is left, every piece was completed. -/
theorem mem_completed (h : s.Conserved size remaining resumed) (hleft : s.piecesLeft = 0)
    {p : Piece} (hp : p ∈ remaining) : p ∈ s.completed := by
  have heq : (↑s.completed : Multiset Piece) = ↑remaining := by
    refine Multiset.eq_of_le_of_card_le h.completed_le ?_
    rw [Multiset.coe_card, Multiset.coe_card, ← h.left, hleft, zero_add]
  exact (Multiset.coe_eq_coe.mp heq).mem_iff.mpr hp

end Conserved

end StripedFetch

open StripedFetch in
/-- **Striping conserves the pieces.** Whatever the peers do, and whenever they join and
leave: until a fatal error, every piece that was left to fetch waits in the queue, is in
flight at one lane, or is completed; the counters count the pieces that are not completed
and the bytes of those that are; and the fetch ends well only when the whole grid is there. -/
theorem stripes_conserved (size : ℕ) (journaled : Finset Piece) (nodes : List Text)
    (events : List StripeEvent) :
    let s := events.foldl StripedFetch.step (fetchStriped size journaled nodes)
    (s.fatal = false →
      (∀ p ∈ stripePieces size, p ∉ resumedPieces size journaled →
        s.queued.count p + s.held.count p + (s.completed : Multiset Piece).count p = 1) ∧
      s.piecesLeft = ((stripePieces size).filter
        fun p => p ∉ resumedPieces size journaled ∧ p ∉ s.completed).length ∧
      s.bytesDone = resumedBytes size journaled + (s.completed.map (pieceBytes size)).sum) ∧
    (s.ended = some .ok →
      ∀ p ∈ stripePieces size, p ∈ resumedPieces size journaled ∨ p ∈ s.completed) := by
  intro s
  have h : s.Conserved size (remainingPieces size journaled) (resumedBytes size journaled) :=
    conserved_fetchStriped.run events
  have hnodup : (remainingPieces size journaled).Nodup := (nodup_stripePieces size).filter _
  refine ⟨fun hfatal => ⟨fun p hgrid hp => ?_, ?_, h.bytes⟩, fun hend p hgrid => ?_⟩
  · have hmem : p ∈ remainingPieces size journaled :=
      List.mem_filter.mpr ⟨hgrid, decide_eq_true hp⟩
    have hcount := congrArg (Multiset.count p) (h.pieces_of_not_fatal hfatal)
    rw [Multiset.count_add, Multiset.count_add] at hcount
    rw [hcount]
    exact Multiset.count_eq_one_of_mem (Multiset.coe_nodup.mpr hnodup) hmem
  · rw [h.piecesLeft_eq hnodup]
    unfold remainingPieces
    rw [List.filter_filter]
    refine congrArg List.length (List.filter_congr fun p _ => ?_)
    rw [← Bool.decide_and]
    exact decide_eq_decide.mpr and_comm
  · by_cases hp : p ∈ resumedPieces size journaled
    · exact .inl hp
    · have hmem : p ∈ remainingPieces size journaled :=
        List.mem_filter.mpr ⟨hgrid, decide_eq_true hp⟩
      exact .inr (h.mem_completed (h.ok hend) hmem)

/-- One peer fails on a piece and another takes it over; at the end both are gone. -/
example :
    let s := [StripeEvent.connect 0 true, .connect 1 true, .lane 0 0 true, .lane 0 0 true,
      .lane 0 0 true, .lane 1 0 true, .lane 0 0 false, .lane 1 0 true, .lane 1 0 true,
      .lane 1 0 true].foldl StripedFetch.step (fetchStriped 5000 ∅ [['a'], ['b']])
    s.fatal = false ∧ s.completed = [(0, 5)] ∧ s.piecesLeft = 0 ∧ s.bytesDone = 5000 := by
  decide +kernel

end Atlas
