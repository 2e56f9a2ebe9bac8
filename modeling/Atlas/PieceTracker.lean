import Atlas.ChunkTracker
import Atlas.Text

/-!
# The pieces that are being fetched

`PieceTracker` puts beside the bits of a torrent the pieces that are being fetched, each by
one peer. A peer that wants something to do steals a piece from a peer that is much slower,
or reserves one: first of those that are asked for out of turn, then of the queue. A piece
goes back to the queue when the peer that fetches it dies, when its data does not hash to
what it should, and when the torrent is paused.

Which of several slowest pieces is stolen depends on the order a hash map yields its entries
in, and how slow a peer has to be on a product of floating-point numbers: both are
parameters. `acquirePiece_cases` says everything acquiring a piece can do.
-/

namespace Atlas

open Finset

/-- The address of a peer, by which its task and its pieces are found. -/
abbrev PeerHandle : Type := Text

/-- Who fetches a piece, and since when, which decides whether it may be stolen. -/
structure InflightPiece where
  peer : PeerHandle
  started : ℕ
  deriving DecidableEq, Repr

/-- What came of asking for a piece: one from the queue, one that another peer had, or none. -/
inductive AcquireResult where
  /-- A new piece was reserved from the queue. -/
  | reserved (piece : ℕ)
  /-- A piece was stolen from a slower peer. -/
  | stolen (piece : ℕ) (fromPeer : PeerHandle)
  /-- No pieces are available for this peer. -/
  | noneAvailable
  deriving DecidableEq, Repr

/-- What a peer asks for, and all that the choice of a piece depends on. -/
structure AcquireRequest where
  peer : PeerHandle
  /-- The time the peer takes for a piece. -/
  peerAvgTime : Option ℕ
  /-- Pieces to check first. -/
  priorityPieces : List ℕ
  filePriorities : List ℕ
  fileInfos : List FileInfo
  peerHasPiece : ℕ → Bool
  /-- Whether a piece can be stolen: it is not locked for writing. -/
  canSteal : ℕ → Bool

/-- What asking for a piece finds around it: the time, the order in which the map of pieces
yields them, and the time a peer may take that is so many times as fast. -/
structure AcquireEnv where
  now : ℕ
  order : List ℕ
  minElapsed : ℕ → ℕ → ℕ

/-- The pieces of a torrent, and those that are being fetched: every piece in flight has the
peer it was asked from and the time it was asked. -/
structure PieceTracker where
  chunks : ChunkTracker
  inflight : ℕ → Option InflightPiece

/-- The entry that has taken longest, the last of several, with the peers it is asked from;
an empty list has none. -/
def slowest (now : ℕ) : List (ℕ × InflightPiece) → Option (ℕ × InflightPiece)
  | [] => none
  | c :: cs =>
    match slowest now cs with
    | none => some c
    | some b => if now - c.2.started ≤ now - b.2.started then some b else some c

theorem mem_of_slowest {now : ℕ} {cs : List (ℕ × InflightPiece)} {c : ℕ × InflightPiece}
    (h : slowest now cs = some c) : c ∈ cs := by
  induction cs generalizing c with
  | nil => cases h
  | cons b cs ih =>
    unfold slowest at h
    cases hrest : slowest now cs with
    | none =>
      rw [hrest] at h
      cases h
      exact List.mem_cons_self
    | some d =>
      rw [hrest] at h
      dsimp only at h
      split at h
      · cases h
        exact List.mem_cons_of_mem _ (ih hrest)
      · cases h
        exact List.mem_cons_self

namespace PieceTracker

/-- Nothing is being fetched yet, and every piece wanted is in the queue. -/
def new (chunks : ChunkTracker) : PieceTracker := ⟨chunks, fun _ => none⟩

/-- Reserve a piece: remove from queue, add to inflight, under the peer that will be asked
for it and the time at which it is. -/
def reservePiece (now p : ℕ) (peer : PeerHandle) (t : PieceTracker) : PieceTracker where
  chunks := t.chunks.reserveNeededPiece p
  inflight := Function.update t.inflight p (some ⟨peer, now⟩)

/-- The pieces that others take too long for, and that the peer has. -/
def stealable (env : AcquireEnv) (req : AcquireRequest) (avg threshold : ℕ) (t : PieceTracker) :
    List (ℕ × InflightPiece) :=
  (((env.order.filterMap fun p => (t.inflight p).map fun info => (p, info)).filter
    fun c => c.2.peer ≠ req.peer).filter fun c => req.peerHasPiece c.1).filter
      fun c => env.minElapsed avg threshold ≤ env.now - c.2.started

/-- A piece changes its owner and starts afresh; the peer it was taken from is not told. -/
def stealPiece (now p : ℕ) (peer : PeerHandle) (t : PieceTracker) : PieceTracker :=
  { t with inflight := Function.update t.inflight p (some ⟨peer, now⟩) }

/-- Try to steal a piece from a slower peer: among the pieces other peers have had for too
long, the slowest one that the request may take. -/
def trySteal (env : AcquireEnv) (req : AcquireRequest) (threshold : ℕ) (t : PieceTracker) :
    Option (AcquireResult × PieceTracker) :=
  match req.peerAvgTime with
  | none => none
  | some avg =>
    match slowest env.now (t.stealable env req avg threshold) with
    | none => none
    | some c =>
      if req.canSteal c.1 then
        some (.stolen c.1 c.2.peer, t.stealPiece env.now c.1 req.peer)
      else none

/-- Attempt to acquire a piece for the requesting peer: try to steal from a peer that is ten
times slower, then to reserve from the priority pieces and the queue, then to steal from a
peer that is three times slower. -/
def acquirePiece (env : AcquireEnv) (req : AcquireRequest) (t : PieceTracker) :
    AcquireResult × PieceTracker :=
  match t.trySteal env req 10 with
  | some r => r
  | none =>
    match req.priorityPieces.find? fun p =>
        p ∉ t.chunks.have_ && (t.inflight p).isNone && req.peerHasPiece p with
    | some p => (.reserved p, t.reservePiece env.now p req.peer)
    | none =>
      match (t.chunks.iterQueuedPieces req.filePriorities req.fileInfos).find?
          req.peerHasPiece with
      | some p => (.reserved p, t.reservePiece env.now p req.peer)
      | none =>
        match t.trySteal env req 3 with
        | some r => r
        | none => (.noneAvailable, t)

/-- Remove a piece from inflight tracking, with the time it took, which is nothing when the
piece was not in flight. -/
def takeInflight (now p : ℕ) (t : PieceTracker) : Option ℕ × PieceTracker :=
  ((t.inflight p).map fun info => now - info.started,
    { t with inflight := Function.update t.inflight p none })

/-- Mark a piece as downloaded after successful hash verification, after which the chunk
tracker counts it as had. -/
def markPieceHashOk (p : ℕ) (t : PieceTracker) : PieceTracker :=
  { t with chunks := t.chunks.markPieceDownloaded p }

/-- Mark a piece as failed after hash verification failure, after which it is queued again
unless it is had by now. -/
def markPieceHashFailed (p : ℕ) (t : PieceTracker) : PieceTracker :=
  { t with chunks := t.chunks.markPieceBrokenIfNotHave p }

/-- The pieces that some peer is fetching, of those that meet a condition. -/
def inflightPieces (keep : InflightPiece → Bool) (t : PieceTracker) : List ℕ :=
  (List.range t.chunks.lengths.totalPieces).filter fun p => (t.inflight p).any keep

/-- Release all pieces owned by a peer: they go back to the queue. -/
def releasePiecesOwnedBy (peer : PeerHandle) (t : PieceTracker) : ℕ × PieceTracker :=
  let pieces := t.inflightPieces fun info => info.peer = peer
  (pieces.length, pieces.foldl (fun t p =>
    { chunks := t.chunks.markPieceBrokenIfNotHave p
      inflight := Function.update t.inflight p none }) t)

/-- The bits alone, with every piece in flight back in the queue. -/
def intoChunks (t : PieceTracker) : ChunkTracker :=
  (t.inflightPieces fun _ => true).foldl (fun c p => c.markPieceBrokenIfNotHave p) t.chunks

/-! ## What acquiring a piece can do -/

variable {t : PieceTracker} {env : AcquireEnv} {req : AcquireRequest}

/-- A stolen piece is one that another peer fetches and that is not locked. -/
theorem trySteal_cases {threshold : ℕ} {r : AcquireResult × PieceTracker}
    (h : t.trySteal env req threshold = some r) :
    ∃ p info, t.inflight p = some info ∧ info.peer ≠ req.peer ∧ req.peerHasPiece p = true ∧
      req.canSteal p = true ∧ r = (.stolen p info.peer, t.stealPiece env.now p req.peer) := by
  unfold trySteal at h
  split at h
  · cases h
  · split at h
    · cases h
    · rename_i c hc
      split at h
      · rename_i hsteal
        have hmem := mem_of_slowest hc
        unfold stealable at hmem
        rw [List.mem_filter, List.mem_filter, List.mem_filter, List.mem_filterMap] at hmem
        obtain ⟨⟨⟨⟨p, -, hp⟩, hother⟩, hhas⟩, -⟩ := hmem
        obtain ⟨info, hinfo, rfl⟩ := Option.map_eq_some_iff.mp hp
        exact ⟨p, info, hinfo, of_decide_eq_true hother, hhas, hsteal, (Option.some.inj h).symm⟩
      · cases h

/-- **All that acquiring a piece can do**: a piece is stolen, or one is reserved that is
queued, or one that is asked for out of turn and neither had nor fetched; or nothing. -/
theorem acquirePiece_cases (t : PieceTracker) (env : AcquireEnv) (req : AcquireRequest) :
    (∃ p info, t.inflight p = some info ∧ info.peer ≠ req.peer ∧ req.canSteal p = true ∧
        (t.acquirePiece env req).2 = t.stealPiece env.now p req.peer) ∨
      (∃ p, (p ∈ req.priorityPieces ∧ p ∉ t.chunks.have_ ∧ t.inflight p = none ∨
          p ∈ t.chunks.queuePieces ∧ p < t.chunks.lengths.totalPieces) ∧
        (t.acquirePiece env req).2 = t.reservePiece env.now p req.peer) ∨
      (t.acquirePiece env req).2 = t := by
  unfold acquirePiece
  split
  · rename_i r hr
    obtain ⟨p, info, hinfo, hother, -, hsteal, rfl⟩ := trySteal_cases hr
    exact .inl ⟨p, info, hinfo, hother, hsteal, rfl⟩
  · split
    · rename_i p hp
      have hfree := List.find?_some hp
      rw [Bool.and_eq_true, Bool.and_eq_true, decide_eq_true_eq, Option.isNone_iff_eq_none]
        at hfree
      exact .inr (.inl ⟨p, .inl ⟨List.mem_of_find?_eq_some hp, hfree.1⟩, rfl⟩)
    · split
      · rename_i p hp
        have hmem := List.mem_of_find?_eq_some hp
        unfold ChunkTracker.iterQueuedPieces at hmem
        rw [List.mem_filter, List.mem_filter] at hmem
        exact .inr (.inl ⟨p, .inr ⟨of_decide_eq_true hmem.1.2, of_decide_eq_true hmem.2⟩, rfl⟩)
      · split
        · rename_i r hr
          obtain ⟨p, info, hinfo, hother, -, hsteal, rfl⟩ := trySteal_cases hr
          exact .inl ⟨p, info, hinfo, hother, hsteal, rfl⟩
        · exact .inr (.inr rfl)

/-! ## What goes back to the queue -/

theorem mem_inflightPieces {keep : InflightPiece → Bool} {p : ℕ} :
    p ∈ t.inflightPieces keep ↔
      p < t.chunks.lengths.totalPieces ∧ ∃ info, t.inflight p = some info ∧ keep info = true := by
  unfold inflightPieces
  rw [List.mem_filter, List.mem_range, Option.any_eq_true]

/-- What a fold that puts pieces back in the queue leaves. -/
theorem foldl_release (ps : List ℕ) (t : PieceTracker) :
    (ps.foldl (fun t p =>
        { chunks := t.chunks.markPieceBrokenIfNotHave p
          inflight := Function.update t.inflight p none }) t : PieceTracker) =
      { chunks := ps.foldl (fun c p => c.markPieceBrokenIfNotHave p) t.chunks
        inflight := fun p => if p ∈ ps then none else t.inflight p } := by
  induction ps generalizing t with
  | nil => rfl
  | cons p ps ih =>
    rw [List.foldl_cons, ih, List.foldl_cons]
    congr 1
    funext q
    by_cases hq : q ∈ ps
    · rw [if_pos hq, if_pos (List.mem_cons_of_mem _ hq)]
    · rw [if_neg hq]
      show Function.update t.inflight p none q = _
      by_cases hqp : q = p
      · rw [hqp, Function.update_self, if_pos List.mem_cons_self]
      · rw [Function.update_of_ne hqp, if_neg fun h => (List.mem_cons.mp h).elim hqp hq]

theorem counts_releasePiecesOwnedBy (peer : PeerHandle) :
    t.chunks.Counts (t.releasePiecesOwnedBy peer).2.chunks := by
  unfold releasePiecesOwnedBy
  dsimp only
  rw [foldl_release]
  exact ChunkTracker.counts_foldl_markPieceBroken _ _

theorem mem_queue_releasePiecesOwnedBy {peer : PeerHandle} {q : ℕ} :
    q ∈ (t.releasePiecesOwnedBy peer).2.chunks.queuePieces ↔
      q ∈ t.chunks.queuePieces ∨
        (q < t.chunks.lengths.totalPieces ∧ ∃ info, t.inflight q = some info ∧ info.peer = peer) ∧
          q ∉ t.chunks.have_ := by
  unfold releasePiecesOwnedBy
  dsimp only
  rw [foldl_release, ChunkTracker.mem_queue_foldl_markPieceBroken, mem_inflightPieces]
  simp only [decide_eq_true_eq]

theorem inflight_releasePiecesOwnedBy {peer : PeerHandle} {q : ℕ} :
    (t.releasePiecesOwnedBy peer).2.inflight q =
      if q < t.chunks.lengths.totalPieces ∧ ∃ info, t.inflight q = some info ∧ info.peer = peer
      then none else t.inflight q := by
  unfold releasePiecesOwnedBy
  dsimp only
  rw [foldl_release]
  simp only [mem_inflightPieces, decide_eq_true_eq]

theorem counts_intoChunks : t.chunks.Counts t.intoChunks :=
  ChunkTracker.counts_foldl_markPieceBroken _ _

theorem mem_queue_intoChunks {q : ℕ} :
    q ∈ t.intoChunks.queuePieces ↔ q ∈ t.chunks.queuePieces ∨
      (q < t.chunks.lengths.totalPieces ∧ t.inflight q ≠ none) ∧ q ∉ t.chunks.have_ := by
  unfold intoChunks
  rw [ChunkTracker.mem_queue_foldl_markPieceBroken, mem_inflightPieces]
  simp only [and_true, Option.ne_none_iff_exists']

end PieceTracker

end Atlas
