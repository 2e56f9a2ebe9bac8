import Atlas.Stripes
import Atlas.Tiling

/-!
# The bytes of stripe pieces

Pieces are ranges of chunks, and progress is counted in bytes; the last chunk of a blob may
be a short one. Both are computed with numbers of 64 bits. `stripes_account_for_blob` says
that none of these computations overflows for a blob that fits in a file, that the pieces
tile the chunks of the blob, and that what is resumed and what is completed add up to the
blob, however it is divided and in whatever order it is counted.
-/

namespace Atlas

/-- Split a blob into pieces from a chunk on, with checked additions. -/
def stripesFromU64 (totalChunks c : ℕ) : Option (List Piece) :=
  if c < totalChunks then
    (addU64 c pieceChunks).bind fun _ =>
      (stripesFromU64 totalChunks (min (c + pieceChunks) totalChunks)).map
        ((c, min (c + pieceChunks) totalChunks) :: ·)
  else some []
termination_by totalChunks - c
decreasing_by
  have hpos : 0 < pieceChunks := by decide
  omega

/-- Split a blob into contiguous stripe pieces, with numbers of 64 bits. -/
def stripePiecesU64 (size : ℕ) : Option (List Piece) :=
  stripesFromU64 (divCeil size BLAKE3_CHUNK) 0

/-- The bytes of a piece, as a fetch and its resumption count them. -/
def pieceBytesU64 (size : ℕ) (p : Piece) : Option ℕ := do
  let stop ← mulU64 p.2 BLAKE3_CHUNK
  let start ← mulU64 p.1 BLAKE3_CHUNK
  subU64 (min stop size) (min start size)

/-- Count pieces, one after the other, with the checked arithmetic of 64 bits. -/
def countBytesU64 (size : ℕ) (counted : ℕ) (pieces : List Piece) : Option ℕ :=
  pieces.foldlM (fun done p => (pieceBytesU64 size p).bind (addU64 done)) counted

/-- The bytes that need not be fetched again, counted as the code counts them. -/
def resumedBytesU64 (size : ℕ) (done : List Piece) : Option ℕ := countBytesU64 size 0 done

/-- The bytes that are done when these pieces were completed, after what was resumed. -/
def completePiecesU64 (size resumed : ℕ) (completed : List Piece) : Option ℕ :=
  countBytesU64 size resumed completed

variable {size totalChunks c : ℕ}

/-- The pieces from a chunk on tile the chunks from there on. -/
theorem tiles_stripesFrom (hc : c ≤ totalChunks) :
    Tiles c totalChunks (stripesFrom totalChunks c) := by
  have hpos : 0 < pieceChunks := by decide
  induction c using stripesFrom.induct totalChunks with
  | case1 c hlt ih =>
    rw [stripesFrom, if_pos hlt]
    refine ⟨rfl, ?_, ih (Nat.min_le_right _ _)⟩
    show c < min (c + pieceChunks) totalChunks
    omega
  | case2 c hlt =>
    rw [stripesFrom, if_neg hlt]
    exact Nat.le_antisymm hc (Nat.le_of_not_lt hlt)

/-- No end of a piece overflows. -/
theorem stripesFromU64_eq (htotal : totalChunks ≤ 2 ^ 53) :
    stripesFromU64 totalChunks c = some (stripesFrom totalChunks c) := by
  have hchunks : pieceChunks = 4096 := by decide
  induction c using stripesFrom.induct totalChunks with
  | case1 c hlt ih =>
    have hadd : addU64 c pieceChunks = some (c + pieceChunks) := addU64_eq (by omega)
    rw [stripesFromU64, if_pos hlt, stripesFrom, if_pos hlt, hadd, Option.bind_some, ih]
    rfl
  | case2 c hlt => rw [stripesFromU64, if_neg hlt, stripesFrom, if_neg hlt]

/-- A blob that fits in a file has at most 2^53 chunks. -/
theorem chunks_le (hsize : size < 2 ^ 63) : divCeil size BLAKE3_CHUNK ≤ 2 ^ 53 := by
  rw [divCeil_eq (by decide)]
  show (size + (1024 - 1)) / 1024 ≤ 2 ^ 53
  omega

/-- Where the chunks before a chunk end, in a blob; the last chunk may be shorter, and so
ends with the blob. -/
def chunkOffset (size c : ℕ) : ℕ := min (c * BLAKE3_CHUNK) size

theorem monotone_chunkOffset : Monotone (chunkOffset size) := by
  intro c c' h
  have hmul : c * BLAKE3_CHUNK ≤ c' * BLAKE3_CHUNK := Nat.mul_le_mul_right _ h
  unfold chunkOffset
  omega

/-- **The bytes of a piece are counted without overflow**, and there are some. -/
theorem pieceBytesU64_eq (hsize : size < 2 ^ 63) {p : Piece} (hlt : p.1 < p.2)
    (hend : p.2 ≤ divCeil size BLAKE3_CHUNK) :
    pieceBytesU64 size p = some (chunkOffset size p.2 - chunkOffset size p.1) ∧
      0 < chunkOffset size p.2 - chunkOffset size p.1 := by
  have htotal := chunks_le hsize
  have hchunk : BLAKE3_CHUNK = 1024 := rfl
  have hstop : mulU64 p.2 BLAKE3_CHUNK = some (p.2 * BLAKE3_CHUNK) := by
    refine mulU64_eq ?_
    rw [hchunk]
    omega
  have hstart : mulU64 p.1 BLAKE3_CHUNK = some (p.1 * BLAKE3_CHUNK) := by
    refine mulU64_eq ?_
    rw [hchunk]
    omega
  have hle : chunkOffset size p.1 ≤ chunkOffset size p.2 :=
    monotone_chunkOffset (Nat.le_of_lt hlt)
  constructor
  · unfold pieceBytesU64
    rw [hstop, hstart]
    exact subU64_eq hle
  · -- the last chunk that starts in the blob has a byte of it
    rw [divCeil_eq (by decide), hchunk] at hend
    unfold chunkOffset
    rw [hchunk]
    omega

/-- Counting adds up, if nothing overflows. -/
theorem countBytesU64_eq {counted : ℕ} {pieces : List Piece} {f : Piece → ℕ}
    (hbytes : ∀ p ∈ pieces, pieceBytesU64 size p = some (f p))
    (hbound : counted + (pieces.map f).sum < 2 ^ 64) :
    countBytesU64 size counted pieces = some (counted + (pieces.map f).sum) := by
  induction pieces generalizing counted with
  | nil => rfl
  | cons p rest ih =>
    rw [List.map_cons, List.sum_cons, ← Nat.add_assoc] at hbound ⊢
    unfold countBytesU64
    rw [List.foldlM_cons, hbytes p List.mem_cons_self]
    have hadd : addU64 counted (f p) = some (counted + f p) := addU64_eq (by omega)
    show (addU64 counted (f p)).bind _ = _
    rw [hadd]
    exact ih (fun q hq => hbytes q (List.mem_cons_of_mem _ hq)) hbound

/-- **The pieces tile the blob, and their bytes add up to it.** No computation with numbers of
64 bits overflows, for a blob that fits in a file; each piece has some bytes; and whichever
pieces are resumed, with the others completed in any order, all the bytes are counted and
none twice. -/
theorem stripes_account_for_blob (hsize : size < 2 ^ 63) :
    ∃ pieces, stripePiecesU64 size = some pieces ∧
      Tiles 0 (divCeil size BLAKE3_CHUNK) pieces ∧
      (∀ p ∈ pieces, ∃ bytes, pieceBytesU64 size p = some bytes ∧ 0 < bytes) ∧
      ∀ resumed completed : List Piece, (resumed ++ completed).Perm pieces →
        ∃ bytes, resumedBytesU64 size resumed = some bytes ∧
          completePiecesU64 size bytes completed = some size := by
  have htiles := tiles_stripesFrom (Nat.zero_le (divCeil size BLAKE3_CHUNK))
  have hbytes {p : Piece} (hp : p ∈ stripesFrom (divCeil size BLAKE3_CHUNK) 0) :=
    pieceBytesU64_eq hsize (htiles.within hp).2.1 (htiles.within hp).2.2
  refine ⟨_, stripesFromU64_eq (chunks_le hsize), htiles, fun p hp => ⟨_, hbytes hp⟩,
    fun resumed completed hperm => ?_⟩
  -- the bytes of all pieces are those of the blob
  have htotal : (resumed.map fun p => chunkOffset size p.2 - chunkOffset size p.1).sum +
      (completed.map fun p => chunkOffset size p.2 - chunkOffset size p.1).sum = size := by
    rw [← List.sum_append, ← List.map_append, (hperm.map _).sum_eq,
      htiles.sum_measure monotone_chunkOffset]
    have hend : size ≤ divCeil size BLAKE3_CHUNK * BLAKE3_CHUNK := by
      rw [divCeil_eq (by decide)]
      show size ≤ (size + (1024 - 1)) / 1024 * 1024
      omega
    unfold chunkOffset
    omega
  have hresumed : ∀ p ∈ resumed, pieceBytesU64 size p =
      some (chunkOffset size p.2 - chunkOffset size p.1) := fun p hp =>
    (hbytes (hperm.subset (List.mem_append_left _ hp))).1
  have hcompleted : ∀ p ∈ completed, pieceBytesU64 size p =
      some (chunkOffset size p.2 - chunkOffset size p.1) := fun p hp =>
    (hbytes (hperm.subset (List.mem_append_right _ hp))).1
  refine ⟨_, countBytesU64_eq hresumed (by omega), ?_⟩
  unfold completePiecesU64
  rw [countBytesU64_eq hcompleted (by omega), Nat.zero_add, htotal]

/-- A blob of two full pieces and a byte, of which the middle piece is resumed. -/
theorem short_piece_accounted :
    ∃ bytes, resumedBytesU64 (2 * STRIPE_PIECE_BYTES + 1) [(4096, 8192)] = some bytes ∧
      completePiecesU64 (2 * STRIPE_PIECE_BYTES + 1) bytes [(8192, 8193), (0, 4096)] =
        some (2 * STRIPE_PIECE_BYTES + 1) := by
  have hsize : 2 * STRIPE_PIECE_BYTES + 1 < 2 ^ 63 := by decide
  obtain ⟨pieces, hpieces, -, -, hcount⟩ := stripes_account_for_blob hsize
  have hlist : stripePiecesU64 (2 * STRIPE_PIECE_BYTES + 1) =
      some [(0, 4096), (4096, 8192), (8192, 8193)] := by
    decide +kernel
  obtain rfl := Option.some.inj (hpieces.symm.trans hlist)
  exact hcount _ _ (by decide)

end Atlas
