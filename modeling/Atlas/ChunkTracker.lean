import Mathlib.Algebra.BigOperators.Group.Finset.Basic
import Mathlib.Algebra.GroupWithZero.Nat
import Mathlib.Algebra.Order.BigOperators.Group.Finset
import Mathlib.Data.Nat.Notation
import Mathlib.Order.Interval.Finset.Nat

/-!
# The pieces of a torrent

A torrent is cut into pieces, and each piece into chunks. `ChunkTracker` is the part of the
BitTorrent client that remembers the pieces it has, those the user selected, those that are
queued to be fetched, and the chunks that were written. A piece is queued exactly from the
moment it is needed to the moment it is asked of a peer: a piece that is being fetched is
neither queued nor had.

Three byte counts are kept beside the bits, and are to agree with them: the bytes had, the
bytes selected, and the bytes of selected pieces that are not had. They do, whatever is done
(`ChunkTracker.InSync`), and no subtraction goes below zero.

The lengths of the pieces and the map from received data to chunks belong to the library of
the client that knows the torrent's metadata; they are taken as they come.
-/

namespace Atlas

open Finset

/-- The pieces of a torrent, and the chunks of each, of which the last may be shorter. -/
structure Lengths where
  /-- How many pieces there are. -/
  totalPieces : ℕ
  /-- The length of a piece. -/
  pieceLength : ℕ → ℕ
  /-- How many chunks a piece has. -/
  chunksPerPiece : ℕ → ℕ
  /-- The chunk of a piece that data is which was received at an offset, by its length. -/
  chunkInfo : ℕ → ℕ → ℕ → Option ℕ
  /-- How many bytes of a piece are of the file at an offset of the torrent, by its length. -/
  sizeOfPieceInFile : ℕ → ℕ → ℕ → ℕ

/-- A file of a torrent: where its bytes and its pieces are, and whether it only pads. -/
structure FileInfo where
  /-- Where it starts in the torrent. -/
  offsetInTorrent : ℕ
  /-- Its first piece. -/
  pieceStart : ℕ
  /-- The piece after its last. -/
  pieceEnd : ℕ
  /-- Whether it only fills up a piece. -/
  padding : Bool
  /-- Its length. -/
  len : ℕ
  deriving DecidableEq, Repr

/-- Whether a file has a part in a piece, be it only a byte. -/
def FileInfo.contains (f : FileInfo) (p : ℕ) : Bool := f.pieceStart ≤ p && p < f.pieceEnd

/-- The pieces of a file in the order they are asked for: first, last, everything else from
start to end. -/
def FileInfo.iterPiecePriorities (f : FileInfo) : List ℕ :=
  let n := f.pieceEnd - f.pieceStart
  (f.pieceStart :: (f.pieceStart + (n - 1)) ::
    (List.range' (f.pieceStart + 1) (n - 2))).take n

/-- The counts that are kept beside the bits, so that progress can be read without counting
pieces. -/
structure HaveNeededSelected where
  /-- How many bytes were downloaded and verified. -/
  haveBytes : ℕ
  /-- How many bytes are missing of what is selected. -/
  neededBytes : ℕ
  /-- How many bytes are selected. -/
  selectedBytes : ℕ
  deriving DecidableEq, Repr

/-- What a chunk that was written did to its piece: it was there before, it is not the last,
or it completed the piece. -/
inductive ChunkMarkingResult where
  | previouslyCompleted
  | notCompleted
  | completed
  deriving DecidableEq, Repr

/-- What is known of the pieces of a torrent: bits for the pieces and chunks, and counts
beside them. -/
structure ChunkTracker where
  /-- The pieces that are to be fetched and that no peer was asked for. -/
  queuePieces : Finset ℕ
  /-- The chunks that were written. -/
  chunkStatus : Finset (ℕ × ℕ)
  /-- The pieces that were downloaded and checked. -/
  have_ : Finset ℕ
  /-- The pieces that the user selected. -/
  selected : Finset ℕ
  /-- How many bytes of each file are had. -/
  perFileBytes : List ℕ
  lengths : Lengths
  hns : HaveNeededSelected

/-- The pieces of the files that are asked for, padding left out. -/
def computeSelectedPieces (files : List FileInfo) (contains : ℕ → Bool) : Finset ℕ :=
  ((files.zipIdx.filter fun f => !f.1.padding).filter fun f => contains f.2).foldr
    (fun f s => Ico f.1.pieceStart f.1.pieceEnd ∪ s) ∅

/-- The length of some of the pieces, of which those past the end of the torrent count for
nothing. -/
def Lengths.bytesOf (l : Lengths) (s : Finset ℕ) : ℕ :=
  ∑ p ∈ range l.totalPieces, if p ∈ s then l.pieceLength p else 0

namespace Lengths

variable {l : Lengths} {p : ℕ} {s : Finset ℕ}

/-- One piece more. -/
theorem bytesOf_insert (hlt : p < l.totalPieces) (hp : p ∉ s) :
    l.bytesOf (insert p s) = l.bytesOf s + l.pieceLength p := by
  have hmem : p ∈ range l.totalPieces := mem_range.mpr hlt
  have hrest : ∀ q ∈ (range l.totalPieces).erase p,
      (if q ∈ insert p s then l.pieceLength q else 0) = if q ∈ s then l.pieceLength q else 0 := by
    intro q hq
    have hiff : q ∈ insert p s ↔ q ∈ s := by
      rw [mem_insert, or_iff_right (ne_of_mem_erase hq)]
    simp only [hiff]
  unfold bytesOf
  rw [← add_sum_erase _ _ hmem, ← add_sum_erase _ _ hmem, sum_congr rfl hrest,
    if_pos (mem_insert_self p s), if_neg hp, Nat.zero_add, Nat.add_comm]

end Lengths

namespace ChunkTracker

/-- The counts as the bits give them, which is what the ones kept beside must equal. -/
def calcHns (t : ChunkTracker) : HaveNeededSelected where
  haveBytes := t.lengths.bytesOf t.have_
  neededBytes := t.lengths.bytesOf (t.selected \ t.have_)
  selectedBytes := t.lengths.bytesOf t.selected

/-- How much of each file is had, from the bits, file by file. -/
def recalculatePerFileBytes (l : Lengths) (have_ : Finset ℕ) (files : List FileInfo) : List ℕ :=
  files.map fun f =>
    (((List.range' f.pieceStart (f.pieceEnd - f.pieceStart)).filter (· ∈ have_)).map fun p =>
      l.sizeOfPieceInFile p f.offsetInTorrent f.len).sum

/-- A tracker, of the pieces that are there already and those that are wanted. -/
def new (havePieces selectedPieces : Finset ℕ) (lengths : Lengths) (files : List FileInfo) :
    ChunkTracker :=
  let t : ChunkTracker :=
    { queuePieces := selectedPieces \ havePieces
      chunkStatus := (havePieces ∩ range lengths.totalPieces).biUnion fun p =>
        (range (lengths.chunksPerPiece p)).image fun k => (p, k)
      have_ := havePieces
      selected := selectedPieces
      perFileBytes := recalculatePerFileBytes lengths havePieces files
      lengths := lengths
      hns := ⟨0, 0, 0⟩ }
  { t with hns := t.calcHns }

/-- A piece is asked of a peer and leaves the queue, so that no other peer is given it. -/
def reserveNeededPiece (p : ℕ) (t : ChunkTracker) : ChunkTracker :=
  { t with queuePieces := t.queuePieces.erase p }

/-- A piece that is not had is to be fetched from its start. -/
def markPieceBrokenIfNotHave (p : ℕ) (t : ChunkTracker) : ChunkTracker :=
  if p ∈ t.have_ then t
  else { t with
    queuePieces := insert p t.queuePieces
    chunkStatus := t.chunkStatus.filter fun c => c.1 ≠ p }

/-- A piece was checked and is had from now on; the counts move with it, unless it was had
before. -/
def markPieceDownloaded (p : ℕ) (t : ChunkTracker) : ChunkTracker :=
  if p ∈ t.have_ then t
  else { t with
    have_ := insert p t.have_
    hns := { t.hns with
      haveBytes := t.hns.haveBytes + t.lengths.pieceLength p
      neededBytes :=
        if p ∈ t.selected then t.hns.neededBytes - t.lengths.pieceLength p
        else t.hns.neededBytes } }

/-- Whether all chunks of a piece were written, which is when it can be checked. -/
def chunksAll (t : ChunkTracker) (p : ℕ) : Bool :=
  (List.range (t.lengths.chunksPerPiece p)).all fun k => (p, k) ∈ t.chunkStatus

/-- A chunk was written, whose data was received at an offset of a piece. Nothing is noted if
no chunk is there, or the piece has all its chunks. -/
def markChunkDownloaded (index start len : ℕ) (t : ChunkTracker) :
    Option ChunkMarkingResult × ChunkTracker :=
  if index < t.lengths.totalPieces then
    match t.lengths.chunkInfo index start len with
    | none => (none, t)
    | some k =>
      if t.chunksAll index then (some .previouslyCompleted, t)
      else
        let t' := { t with chunkStatus := insert (index, k) t.chunkStatus }
        (some (if t'.chunksAll index then .completed else .notCompleted), t')
  else (none, t)

/-- Other files are selected: what is newly needed is queued, and what is needed no more is
taken off the queue. -/
def updateOnlyFiles (files : List FileInfo) (onlyFiles : ℕ → Bool) (t : ChunkTracker) :
    ChunkTracker :=
  let selected := computeSelectedPieces files onlyFiles
  let newly := (List.range t.lengths.totalPieces).filter fun p =>
    p ∈ selected ∧ p ∉ t.selected ∧ p ∉ t.have_
  let t := newly.foldl (fun t p => t.markPieceBrokenIfNotHave p) { t with selected := selected }
  let t := { t with queuePieces := t.queuePieces ∩ (t.selected ∪ t.have_) }
  { t with hns := t.calcHns }

/-- The queued pieces in the order they are asked for; those of a file that is complete are
passed over. -/
def iterQueuedPieces (priorities : List ℕ) (files : List FileInfo) (t : ChunkTracker) :
    List ℕ :=
  let files := (priorities.filterMap fun i => files[i]?.map fun f => (i, f)).filter fun f =>
    t.perFileBytes.getD f.1 0 ≠ f.2.len
  ((files.flatMap fun f => f.2.iterPiecePriorities).filter (· ∈ t.queuePieces)).filter
    (· < t.lengths.totalPieces)

/-- A file has more of its bytes: as many as the piece has inside it. -/
def updateFileHave (p i : ℕ) (f : FileInfo) (t : ChunkTracker) : ChunkTracker :=
  { t with perFileBytes := t.perFileBytes.modify i fun n =>
      n + t.lengths.sizeOfPieceInFile p f.offsetInTorrent f.len }

/-- Each file of a piece has more of its bytes, up to the first that has no part in it. -/
def onPieceCompleted (files : List FileInfo) (p : ℕ) (t : ChunkTracker) : ChunkTracker :=
  ((files.zipIdx.dropWhile fun f => !f.1.contains p).takeWhile fun f => f.1.contains p).foldl
    (fun t f => t.updateFileHave p f.2 f.1) t

/-! ## The counts agree with the bits -/

variable {t : ChunkTracker} {p : ℕ}

/-- **The counts are those of the bits**, all three of them at once. -/
def InSync (t : ChunkTracker) : Prop := t.hns = t.calcHns

theorem inSync_new (havePieces selectedPieces : Finset ℕ) (lengths : Lengths)
    (files : List FileInfo) : (new havePieces selectedPieces lengths files).InSync := rfl

/-- The counts and the bits they count are those of another tracker. -/
structure Counts (t t' : ChunkTracker) : Prop where
  have_ : t'.have_ = t.have_
  selected : t'.selected = t.selected
  lengths : t'.lengths = t.lengths
  hns : t'.hns = t.hns

theorem Counts.refl (t : ChunkTracker) : Counts t t := ⟨rfl, rfl, rfl, rfl⟩

theorem Counts.trans {t' t'' : ChunkTracker} (h : Counts t t') (h' : Counts t' t'') :
    Counts t t'' :=
  ⟨h'.have_.trans h.have_, h'.selected.trans h.selected, h'.lengths.trans h.lengths,
    h'.hns.trans h.hns⟩

theorem Counts.mem_have {t' : ChunkTracker} (h : Counts t t') {q : ℕ} :
    q ∈ t'.have_ ↔ q ∈ t.have_ := by
  rw [h.have_]

theorem Counts.calcHns {t' : ChunkTracker} (h : Counts t t') : t'.calcHns = t.calcHns := by
  unfold ChunkTracker.calcHns
  rw [h.have_, h.selected, h.lengths]

theorem InSync.of_counts {t' : ChunkTracker} (h : t.InSync) (hcounts : Counts t t') :
    t'.InSync :=
  hcounts.hns.trans (h.trans hcounts.calcHns.symm)

theorem counts_reserveNeededPiece : Counts t (t.reserveNeededPiece p) := ⟨rfl, rfl, rfl, rfl⟩

theorem counts_markPieceBrokenIfNotHave : Counts t (t.markPieceBrokenIfNotHave p) := by
  unfold markPieceBrokenIfNotHave
  split
  · exact .refl t
  · exact ⟨rfl, rfl, rfl, rfl⟩

theorem counts_foldl_markPieceBroken (ps : List ℕ) (t : ChunkTracker) :
    Counts t (ps.foldl (fun t p => t.markPieceBrokenIfNotHave p) t) := by
  induction ps generalizing t with
  | nil => exact .refl t
  | cons p ps ih => exact counts_markPieceBrokenIfNotHave.trans (ih _)

/-- The queue after a piece broke. -/
theorem mem_queue_markPieceBroken {q : ℕ} :
    q ∈ (t.markPieceBrokenIfNotHave p).queuePieces ↔
      q ∈ t.queuePieces ∨ q = p ∧ p ∉ t.have_ := by
  unfold markPieceBrokenIfNotHave
  split
  · rename_i hp
    exact (or_iff_left fun h => h.2 hp).symm
  · rename_i hp
    rw [mem_insert, or_comm, and_iff_left hp]

theorem mem_queue_foldl_markPieceBroken {q : ℕ} (ps : List ℕ) (t : ChunkTracker) :
    q ∈ (ps.foldl (fun t p => t.markPieceBrokenIfNotHave p) t).queuePieces ↔
      q ∈ t.queuePieces ∨ q ∈ ps ∧ q ∉ t.have_ := by
  induction ps generalizing t with
  | nil => exact (or_iff_left fun h => List.not_mem_nil h.1).symm
  | cons p ps ih =>
    rw [List.foldl_cons, ih, mem_queue_markPieceBroken,
      (counts_markPieceBrokenIfNotHave (t := t) (p := p)).have_, List.mem_cons, or_assoc]
    refine or_congr_right ⟨?_, ?_⟩
    · rintro (⟨rfl, hp⟩ | ⟨hq, hhave⟩)
      · exact ⟨.inl rfl, hp⟩
      · exact ⟨.inr hq, hhave⟩
    · rintro ⟨rfl | hq, hhave⟩
      · exact .inl ⟨rfl, hhave⟩
      · exact .inr ⟨hq, hhave⟩

theorem counts_markChunkDownloaded (index start len : ℕ) :
    Counts t (t.markChunkDownloaded index start len).2 := by
  unfold markChunkDownloaded
  split
  · split
    · exact .refl t
    · split
      · exact .refl t
      · exact ⟨rfl, rfl, rfl, rfl⟩
  · exact .refl t

theorem counts_updateFileHave (i : ℕ) (f : FileInfo) : Counts t (t.updateFileHave p i f) :=
  ⟨rfl, rfl, rfl, rfl⟩

theorem counts_onPieceCompleted (files : List FileInfo) :
    Counts t (t.onPieceCompleted files p) := by
  unfold onPieceCompleted
  generalize (files.zipIdx.dropWhile fun f => !f.1.contains p).takeWhile _ = fs
  induction fs generalizing t with
  | nil => exact .refl t
  | cons f fs ih => exact (counts_updateFileHave f.2 f.1).trans ih

/-- **A checked piece is counted once**, and nothing is taken from the bytes that are needed
which was not among them. -/
theorem InSync.markPieceDownloaded (h : t.InSync) (hlt : p < t.lengths.totalPieces) :
    (t.markPieceDownloaded p).InSync := by
  unfold ChunkTracker.markPieceDownloaded
  split
  · exact h
  · rename_i hp
    have hhave := Lengths.bytesOf_insert hlt hp
    have hneeded : (if p ∈ t.selected then t.hns.neededBytes - t.lengths.pieceLength p
        else t.hns.neededBytes) = t.lengths.bytesOf (t.selected \ insert p t.have_) := by
      have hcount : t.hns.neededBytes = t.lengths.bytesOf (t.selected \ t.have_) :=
        congrArg HaveNeededSelected.neededBytes h
      rw [sdiff_insert, hcount]
      split
      · rename_i hsel
        have hmem : p ∈ t.selected \ t.have_ := mem_sdiff.mpr ⟨hsel, hp⟩
        have hall := Lengths.bytesOf_insert (l := t.lengths) hlt
          (notMem_erase p (t.selected \ t.have_))
        rw [insert_erase hmem] at hall
        rw [hall, Nat.add_sub_cancel]
      · rename_i hsel
        rw [erase_eq_of_notMem fun hmem => hsel (mem_sdiff.mp hmem).1]
    unfold InSync calcHns at h ⊢
    rw [hneeded, h, hhave]

/-! ## What each operation does to the pieces -/

theorem have_markPieceDownloaded : (t.markPieceDownloaded p).have_ = insert p t.have_ := by
  unfold markPieceDownloaded
  split
  · rename_i hp
    exact (insert_eq_of_mem hp).symm
  · rfl

theorem queue_markPieceDownloaded :
    (t.markPieceDownloaded p).queuePieces = t.queuePieces := by
  unfold markPieceDownloaded
  split
  · rfl
  · rfl

theorem selected_markPieceDownloaded : (t.markPieceDownloaded p).selected = t.selected := by
  unfold markPieceDownloaded
  split
  · rfl
  · rfl

theorem lengths_markPieceDownloaded : (t.markPieceDownloaded p).lengths = t.lengths := by
  unfold markPieceDownloaded
  split
  · rfl
  · rfl

theorem queue_markChunkDownloaded (index start len : ℕ) :
    (t.markChunkDownloaded index start len).2.queuePieces = t.queuePieces := by
  unfold markChunkDownloaded
  split
  · split
    · rfl
    · split
      · rfl
      · rfl
  · rfl

/-- Only a piece that there is can be complete. -/
theorem lt_of_markChunkDownloaded {index start len : ℕ}
    (h : (t.markChunkDownloaded index start len).1 = some .completed) :
    index < t.lengths.totalPieces := by
  unfold markChunkDownloaded at h
  split at h
  · assumption
  · cases h

theorem queue_onPieceCompleted (files : List FileInfo) :
    (t.onPieceCompleted files p).queuePieces = t.queuePieces := by
  unfold onPieceCompleted
  generalize (files.zipIdx.dropWhile fun f => !f.1.contains p).takeWhile _ = fs
  induction fs generalizing t with
  | nil => rfl
  | cons f fs ih => exact ih

section updateOnlyFiles

variable (files : List FileInfo) (onlyFiles : ℕ → Bool)

theorem have_updateOnlyFiles : (t.updateOnlyFiles files onlyFiles).have_ = t.have_ :=
  (counts_foldl_markPieceBroken _ _).have_

theorem selected_updateOnlyFiles : (t.updateOnlyFiles files onlyFiles).selected =
    computeSelectedPieces files onlyFiles :=
  (counts_foldl_markPieceBroken _ _).selected

theorem lengths_updateOnlyFiles : (t.updateOnlyFiles files onlyFiles).lengths = t.lengths :=
  (counts_foldl_markPieceBroken _ _).lengths

/-- The queue after other files are selected: of what is selected or had, what was queued and
what is newly needed. -/
theorem mem_queue_updateOnlyFiles {q : ℕ} :
    q ∈ (t.updateOnlyFiles files onlyFiles).queuePieces ↔
      (q ∈ t.queuePieces ∨ q < t.lengths.totalPieces ∧
        q ∈ computeSelectedPieces files onlyFiles ∧ q ∉ t.selected ∧ q ∉ t.have_) ∧
        (q ∈ computeSelectedPieces files onlyFiles ∨ q ∈ t.have_) := by
  have hselected := selected_updateOnlyFiles (t := t) files onlyFiles
  have hhave := have_updateOnlyFiles (t := t) files onlyFiles
  unfold updateOnlyFiles at hselected hhave ⊢
  dsimp only at hselected hhave ⊢
  rw [mem_inter, mem_union, hselected, hhave, mem_queue_foldl_markPieceBroken, List.mem_filter,
    List.mem_range, decide_eq_true_eq]
  refine and_congr_left fun _ => or_congr_right ⟨?_, ?_⟩
  · rintro ⟨⟨hlt, hneeded⟩, -⟩
    exact ⟨hlt, hneeded⟩
  · rintro ⟨hlt, hneeded⟩
    exact ⟨⟨hlt, hneeded⟩, hneeded.2.2⟩

end updateOnlyFiles

theorem inSync_updateOnlyFiles (files : List FileInfo) (onlyFiles : ℕ → Bool) :
    (t.updateOnlyFiles files onlyFiles).InSync := rfl

end ChunkTracker

end Atlas
