import Mathlib.Data.Finset.Basic
import Mathlib.Algebra.BigOperators.Group.Finset.Basic
import Mathlib.Algebra.BigOperators.Group.List.Basic
import Mathlib.Algebra.GroupWithZero.Nat

/-!
# Stripes of a blob

A blob that is fetched from several peers at once is cut into pieces, which are ranges
of BLAKE3 chunks. `stripePieces` is the grid of a size; its pieces follow one another
without gaps, so that no two of them are the same.
-/

namespace Atlas

/-- BLAKE3 leaf chunk size, the unit of a piece: a piece starts and ends at multiples of it,
except at the end of a blob. -/
def BLAKE3_CHUNK : ℕ := 1024

/-- Stripe piece size, 4 MiB, which the last piece of a blob need not fill. -/
def STRIPE_PIECE_BYTES : ℕ := 4 * 1024 * 1024

/-- The chunks of a full piece, each the chunk of BLAKE3. -/
def pieceChunks : ℕ := STRIPE_PIECE_BYTES / BLAKE3_CHUNK

/-- The chunks from the first number up to the second, which is not one of them. -/
abbrev Piece : Type := ℕ × ℕ

instance : LawfulBEq Piece := inferInstance

/-- How many bytes of a blob of some size a piece has. -/
def pieceBytes (size : ℕ) (p : Piece) : ℕ :=
  min (p.2 * BLAKE3_CHUNK) size - min (p.1 * BLAKE3_CHUNK) size

/-- The pieces from a chunk on, each full but for the last. -/
def stripesFrom (totalChunks c : ℕ) : List Piece :=
  if c < totalChunks then
    (c, min (c + pieceChunks) totalChunks) ::
      stripesFrom totalChunks (min (c + pieceChunks) totalChunks)
  else []
termination_by totalChunks - c
decreasing_by
  have hpos : 0 < pieceChunks := by decide
  omega

/-- Split a blob into contiguous stripe pieces, which cover its chunks in order. -/
def stripePieces (size : ℕ) : List Piece :=
  stripesFrom ((size + (BLAKE3_CHUNK - 1)) / BLAKE3_CHUNK) 0

/-- A piece starts where it may, is not empty, and ends within the blob. -/
theorem mem_stripesFrom {totalChunks c : ℕ} {p : Piece} (h : p ∈ stripesFrom totalChunks c) :
    c ≤ p.1 ∧ p.1 < p.2 ∧ p.2 ≤ totalChunks := by
  have hpos : 0 < pieceChunks := by decide
  induction c using stripesFrom.induct totalChunks with
  | case1 c hc ih =>
    rw [stripesFrom, if_pos hc] at h
    obtain rfl | h := List.mem_cons.mp h
    · show c ≤ c ∧ c < min (c + pieceChunks) totalChunks ∧ _
      omega
    · obtain ⟨hle, hlt⟩ := ih h
      exact ⟨by omega, hlt⟩
  | case2 c hc =>
    rw [stripesFrom, if_neg hc] at h
    cases h

/-- A piece starts a whole number of pieces further on, and is a full one unless the blob
ends before. -/
theorem mem_stripesFrom_grid {totalChunks c : ℕ} {p : Piece}
    (h : p ∈ stripesFrom totalChunks c) :
    (∃ k, p.1 = c + k * pieceChunks) ∧ p.2 = min (p.1 + pieceChunks) totalChunks := by
  induction c using stripesFrom.induct totalChunks with
  | case1 c hc ih =>
    rw [stripesFrom, if_pos hc] at h
    obtain rfl | h := List.mem_cons.mp h
    · exact ⟨⟨0, by rw [Nat.zero_mul, Nat.add_zero]⟩, rfl⟩
    · obtain ⟨⟨k, hk⟩, hend⟩ := ih h
      -- the piece before is a full one, or there would be none after it
      have hfull : min (c + pieceChunks) totalChunks = c + pieceChunks := by
        have hmem := mem_stripesFrom h
        omega
      rw [hfull] at hk
      refine ⟨⟨k + 1, ?_⟩, hend⟩
      rw [hk, Nat.add_mul, Nat.one_mul]
      omega
  | case2 c hc =>
    rw [stripesFrom, if_neg hc] at h
    cases h

/-- **A piece is known by its start**, also by a number that is not below its start and
not above its end. -/
theorem stripePieces_unique {size : ℕ} {p q : Piece} (hp : p ∈ stripePieces size)
    (hq : q ∈ stripePieces size) (hstart : p.1 ≤ q.1) (hend : q.2 ≤ p.2) : q = p := by
  obtain ⟨⟨k, hk⟩, hp2⟩ := mem_stripesFrom_grid hp
  obtain ⟨⟨j, hj⟩, hq2⟩ := mem_stripesFrom_grid hq
  have hlt := (mem_stripesFrom hq).2.1
  have hchunks : pieceChunks = 4096 := by decide
  rw [hchunks] at hk hp2 hj hq2
  have hfst : q.1 = p.1 := by omega
  have hsnd : q.2 = p.2 := by rw [hp2, hq2, hfst]
  exact Prod.ext hfst hsnd

/-- **The grid has every piece once.** -/
theorem nodup_stripesFrom (totalChunks c : ℕ) : (stripesFrom totalChunks c).Nodup := by
  have hpos : 0 < pieceChunks := by decide
  induction c using stripesFrom.induct totalChunks with
  | case1 c hc ih =>
    rw [stripesFrom, if_pos hc]
    refine List.nodup_cons.mpr ⟨fun hmem => ?_, ih⟩
    have hle := (mem_stripesFrom hmem).1
    replace hle : min (c + pieceChunks) totalChunks ≤ c := hle
    omega
  | case2 c hc =>
    rw [stripesFrom, if_neg hc]
    exact List.nodup_nil

theorem nodup_stripePieces (size : ℕ) : (stripePieces size).Nodup := nodup_stripesFrom _ _

end Atlas
