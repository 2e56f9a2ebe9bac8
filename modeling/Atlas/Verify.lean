import Mathlib.Order.Nat
import Atlas.Hash

/-!
# The streaming verifier

`StreamingVerifier` checks a byte stream as it arrives: per-leaf hashes as
each leaf completes, the size and the full-file digests when the stream ends.

What it has consumed is the argument of everything said about it.
`StreamingVerifier.Consumed v b` says that `v` is a verifier that was fed `b`
and nothing else, and the two operations are specified against it: feeding
`data` takes it to `b ++ data` (`feed_consumed`), and finishing succeeds only
if `b` has the declared digests and size (`finish_eq_ok`). Which leaf a
failure is about is `LeafCheck.feed_spec`.
-/

namespace Atlas

open Text

/-- Leaf `i` of a byte string cut into leaves of `n` bytes. -/
def leafOf (n i : ℕ) (b : Bytes) : Bytes := (b.drop (i * n)).take n

/-- The part of the verifier that checks leaves: the tree, the leaf being
filled and its number. The buffer never outgrows a leaf. -/
structure LeafCheck where
  tree : ChunkTree
  leafBuf : Bytes
  leafIndex : ℕ
  leafBuf_le : leafBuf.length ≤ tree.leafSize

/-- The error for a leaf that does not have its recorded hash. -/
def leafMismatch (D : Digests) (what : Text) (tree : ChunkTree) (leafIndex : ℕ)
    (leafBuf : Bytes) : Error :=
  .hashMismatch (what ++ " leaf #".toList ++ (toString leafIndex).toList)
    ((tree.leaves[leafIndex]?.map hexEncode).getD "<out-of-range>".toList)
    (hexEncode (leafHash D leafBuf))

namespace LeafCheck

/-- A check that has seen nothing of the file, and so has no offset to blame anybody for. -/
def new (tree : ChunkTree) : LeafCheck := ⟨tree, [], 0, Nat.zero_le _⟩

/-- Feed the next bytes: fill the leaf buffer, verify the leaf when it is
full, advance and start over with what is left. -/
def feed (D : Digests) (what : Text) (c : LeafCheck) (data : Bytes) :
    Except Error LeafCheck :=
  if data = [] then .ok c
  else
    let take := min (c.tree.leafSize - c.leafBuf.length) data.length
    let leafBuf := c.leafBuf ++ data.take take
    if leafBuf.length = c.tree.leafSize then
      if c.tree.verifyLeaf D c.leafIndex leafBuf then
        feed D what ⟨c.tree, [], c.leafIndex + 1, Nat.zero_le _⟩ (data.drop take)
      else .error (leafMismatch D what c.tree c.leafIndex leafBuf)
    else
      feed D what ⟨c.tree, leafBuf, c.leafIndex, by
        have := c.leafBuf_le
        simp only [leafBuf, take, List.length_append, List.length_take]
        omega⟩ (data.drop take)
termination_by data.length + (c.tree.leaves.length - c.leafIndex)
decreasing_by
  · rename_i _ _ hverify
    have hindex : c.leafIndex < c.tree.leaves.length := by
      by_contra hge
      rw [ChunkTree.verifyLeaf,
        List.getElem?_eq_none (Nat.le_of_not_lt hge)] at hverify
      exact Bool.false_ne_true hverify
    rw [List.length_drop]
    omega
  · rename_i hdata hfull
    have := List.length_pos_iff.mpr hdata
    have := c.leafBuf_le
    rw [List.length_append, List.length_take] at hfull
    rw [List.length_drop]
    omega

/-- **The check has consumed `b`**: every full leaf of it was verified and the
buffer holds what follows the last one. -/
structure Consumed (D : Digests) (c : LeafCheck) (b : Bytes) : Prop where
  leafBuf_lt : c.leafBuf.length < c.tree.leafSize
  leafBuf_eq : c.leafBuf = b.drop (c.leafIndex * c.tree.leafSize)
  le : c.leafIndex * c.tree.leafSize ≤ b.length
  verified : ∀ i < c.leafIndex,
    c.tree.verifyLeaf D i (leafOf c.tree.leafSize i b) = true

theorem new_consumed (D : Digests) {tree : ChunkTree} (h : 0 < tree.leafSize) :
    (new tree).Consumed D [] := by
  refine ⟨h, ?_, ?_, fun i hi => absurd hi (Nat.not_lt_zero i)⟩
  · exact List.drop_nil.symm
  · exact (Nat.zero_mul _).le

namespace Consumed

variable {D : Digests} {c : LeafCheck} {b : Bytes}

/-- A leaf that is already full does not change as more bytes come. -/
theorem leafOf_append {n i : ℕ} {b : Bytes} (data : Bytes)
    (h : (i + 1) * n ≤ b.length) : leafOf n i (b ++ data) = leafOf n i b := by
  rw [Nat.succ_mul] at h
  unfold leafOf
  rw [List.drop_append_of_le_length (by omega),
    List.take_append_of_le_length (by rw [List.length_drop]; omega)]

/-- What follows the last verified leaf, once more bytes have come. -/
theorem drop_append (hc : c.Consumed D b) (data : Bytes) :
    (b ++ data).drop (c.leafIndex * c.tree.leafSize) = c.leafBuf ++ data := by
  rw [List.drop_append_of_le_length hc.le, ← hc.leafBuf_eq]

/-- The bytes that fill the buffer are the current leaf. -/
theorem leafOf_leafIndex (hc : c.Consumed D b) (data : Bytes) :
    leafOf c.tree.leafSize c.leafIndex (b ++ data) =
      c.leafBuf ++ data.take (c.tree.leafSize - c.leafBuf.length) := by
  unfold leafOf
  rw [hc.drop_append data, List.take_append,
    List.take_of_length_le (Nat.le_of_lt hc.leafBuf_lt)]

/-- More bytes that do not fill the leaf join the buffer. -/
theorem partial_leaf (hc : c.Consumed D b) {data : Bytes}
    (h : (c.leafBuf ++ data).length < c.tree.leafSize)
    (hle : (c.leafBuf ++ data).length ≤ c.tree.leafSize) :
    Consumed D ⟨c.tree, c.leafBuf ++ data, c.leafIndex, hle⟩ (b ++ data) := by
  refine ⟨h, (hc.drop_append data).symm, ?_, fun i hi => ?_⟩
  · exact hc.le.trans (by rw [List.length_append]; exact Nat.le_add_right _ _)
  · show c.tree.verifyLeaf D i (leafOf c.tree.leafSize i (b ++ data)) = true
    rw [leafOf_append data ((Nat.mul_le_mul_right _ hi).trans hc.le)]
    exact hc.verified i hi

/-- Bytes that fill the leaf, once verified, move on to the next. -/
theorem full_leaf (hc : c.Consumed D b) {data : Bytes}
    (h : (c.leafBuf ++ data).length = c.tree.leafSize)
    (hv : c.tree.verifyLeaf D c.leafIndex (c.leafBuf ++ data) = true) :
    Consumed D ⟨c.tree, [], c.leafIndex + 1, Nat.zero_le _⟩ (b ++ data) := by
  have hb : b.length = c.leafIndex * c.tree.leafSize + c.leafBuf.length := by
    have := congrArg List.length hc.leafBuf_eq
    rw [List.length_drop] at this
    have := hc.le
    omega
  have hlen : (b ++ data).length = (c.leafIndex + 1) * c.tree.leafSize := by
    rw [List.length_append] at h ⊢
    rw [Nat.succ_mul]
    omega
  refine ⟨Nat.zero_lt_of_lt hc.leafBuf_lt, ?_, hlen.ge, fun i hi => ?_⟩
  · show [] = (b ++ data).drop ((c.leafIndex + 1) * c.tree.leafSize)
    rw [← hlen, List.drop_length]
  · show c.tree.verifyLeaf D i (leafOf c.tree.leafSize i (b ++ data)) = true
    by_cases hlast : i = c.leafIndex
    · subst hlast
      rw [hc.leafOf_leafIndex, List.take_of_length_le]
      · exact hv
      · rw [List.length_append] at h
        omega
    · have hlt : i < c.leafIndex := Nat.lt_of_le_of_ne (Nat.le_of_lt_succ hi) hlast
      rw [leafOf_append data ((Nat.mul_le_mul_right _ hlt).trans hc.le)]
      exact hc.verified i hlt

/-- Bytes that fill the buffer make it the current leaf. -/
theorem filled (hc : c.Consumed D b) {data : Bytes}
    (h : (c.leafBuf ++ data.take (min (c.tree.leafSize - c.leafBuf.length)
      data.length)).length = c.tree.leafSize) :
    (c.leafIndex + 1) * c.tree.leafSize ≤ (b ++ data).length ∧
      leafOf c.tree.leafSize c.leafIndex (b ++ data) =
        c.leafBuf ++ data.take (min (c.tree.leafSize - c.leafBuf.length) data.length) := by
  have htake : min (c.tree.leafSize - c.leafBuf.length) data.length =
      c.tree.leafSize - c.leafBuf.length := by
    rw [List.length_append, List.length_take] at h
    omega
  refine ⟨?_, by rw [hc.leafOf_leafIndex, htake]⟩
  have hbuf := congrArg List.length hc.leafBuf_eq
  have hle := hc.le
  rw [List.length_drop] at hbuf
  rw [List.length_append, List.length_take] at h
  rw [List.length_append, Nat.succ_mul]
  omega

end Consumed

/-- What feeding `data` after `b` amounts to: either all of it was taken in,
or the first leaf it completed that does not have its recorded hash is the
one the failure names. -/
def FeedSpec (D : Digests) (what : Text) (c : LeafCheck) (b : Bytes) :
    Except Error LeafCheck → Prop
  | .ok c' => c'.tree = c.tree ∧ c'.Consumed D b
  | .error e => ∃ i, c.leafIndex ≤ i ∧ (i + 1) * c.tree.leafSize ≤ b.length ∧
      c.tree.verifyLeaf D i (leafOf c.tree.leafSize i b) = false ∧
      e = leafMismatch D what c.tree i (leafOf c.tree.leafSize i b)

/-- **Feeding verifies the leaves it completes, and nothing else.** -/
theorem feed_spec (D : Digests) (what : Text) (c : LeafCheck) (data b : Bytes)
    (hc : c.Consumed D b) : FeedSpec D what c (b ++ data) (c.feed D what data) := by
  induction c, data using feed.induct D generalizing b with
  | case1 c =>
    rw [feed, if_pos rfl, List.append_nil]
    exact ⟨rfl, hc⟩
  | case2 c data hdata take leafBuf hfull hv ih =>
    rw [feed, if_neg hdata, if_pos hfull, if_pos hv]
    have hnext := hc.full_leaf hfull hv
    have h := ih _ hnext
    rw [List.append_assoc, List.take_append_drop] at h
    revert h
    cases feed D what _ (data.drop take) with
    | ok c' => exact fun h => h
    | error e =>
      rintro ⟨i, hi, h⟩
      exact ⟨i, (Nat.le_succ _).trans hi, h⟩
  | case3 c data hdata take leafBuf hfull hv =>
    rw [feed, if_neg hdata, if_pos hfull, if_neg hv]
    obtain ⟨hlen, hleaf⟩ := hc.filled hfull
    refine ⟨c.leafIndex, Nat.le_refl _, hlen, ?_, ?_⟩
    · rw [hleaf]
      exact Bool.eq_false_iff.mpr hv
    · rw [hleaf]
  | case4 c data hdata take leafBuf hfull ih =>
    rw [feed, if_neg hdata, if_neg hfull]
    have hle : (c.leafBuf ++ data.take take).length ≤ c.tree.leafSize := by
      have := c.leafBuf_le
      rw [List.length_append, List.length_take]
      omega
    have hnext := hc.partial_leaf (Nat.lt_of_le_of_ne hle hfull) hle
    have h := ih _ hnext
    rw [List.append_assoc, List.take_append_drop] at h
    exact h

end LeafCheck

/-! ## The verifier -/

/-- Incrementally verifies a byte stream against expected digests and
per-leaf hashes as each leaf completes, so a poisoning source is caught early. -/
structure StreamingVerifier where
  dual : DualHasher
  leafCheck : Option LeafCheck
  expected : Hashes
  expectedSize : ℕ
  what : Text

namespace StreamingVerifier

/-- A verifier that has seen nothing. The git blob OID needs the length up
front, so it is computed only when the manifest declares one and a size. -/
def new (expected : Hashes) (expectedSize : ℕ) (chunkTree : Option ChunkTree)
    (what : Text) : StreamingVerifier :=
  { dual :=
      if expected.hasGitBlobSha1 && 0 < expectedSize then
        DualHasher.withGitBlobLen expectedSize
      else DualHasher.new
    leafCheck := chunkTree.map LeafCheck.new
    expected := expected
    expectedSize := expectedSize
    what := what }

/-- How many bytes went through the verifier, whether or not they were right. -/
def bytesSeen (v : StreamingVerifier) : ℕ := v.dual.len

/-- Feed a contiguous chunk of bytes (must be supplied in order from offset
0). -/
def feed (D : Digests) (v : StreamingVerifier) (data : Bytes) :
    Except Error StreamingVerifier :=
  let dual := v.dual.update data
  match v.leafCheck with
  | none => .ok { v with dual := dual }
  | some c =>
    match c.feed D v.what data with
    | .ok c' => .ok { v with dual := dual, leafCheck := some c' }
    | .error e => .error e

/-- The leaf check at the end of the stream: the trailing partial leaf is
verified too, and every leaf of the tree must have come. -/
def finishLeaves (D : Digests) (what : Text) (c : LeafCheck) : Except Error Unit :=
  if c.leafBuf = [] then countLeaves c.tree c.leafIndex
  else if c.tree.verifyLeaf D c.leafIndex c.leafBuf then
    countLeaves c.tree (c.leafIndex + 1)
  else .error (leafMismatch D what c.tree c.leafIndex c.leafBuf)
where
  countLeaves (tree : ChunkTree) (leafIndex : ℕ) : Except Error Unit :=
    if leafIndex = tree.numLeaves then .ok ()
    else .error (.hashMismatch (what ++ " leaf count".toList)
      (toString tree.numLeaves).toList (toString leafIndex).toList)

/-- The size and digest checks at the end of the stream. An expected size of
0 means the size was unknown up front, so only the digests are enforced. -/
def finishDigests (D : Digests) (v : StreamingVerifier) : Except Error Hashes :=
  let size := v.dual.len
  if v.expectedSize ≠ 0 ∧ size ≠ v.expectedSize then
    .error (.sizeMismatch v.what v.expectedSize size)
  else
    let got := v.dual.finalize D
    match v.expected.mismatchAgainst got with
    | some (label, expected, actual) =>
      .error (.hashMismatch (v.what ++ " (".toList ++ label ++ ")".toList)
        expected actual)
    | none => .ok got

/-- Finish: verify the trailing partial leaf, total size, and full-file
digests. Returns the computed digests on success. -/
def finish (D : Digests) (v : StreamingVerifier) : Except Error Hashes :=
  match v.leafCheck with
  | none => v.finishDigests D
  | some c =>
    match finishLeaves D v.what c with
    | .ok () => v.finishDigests D
    | .error e => .error e

/-! ### What a verifier has consumed -/

/-- **`v` is a verifier for these expectations that was fed `b`** and nothing
else: its three hashers and its counter have consumed exactly `b`. -/
structure Consumed (v : StreamingVerifier) (expected : Hashes) (expectedSize : ℕ)
    (b : Bytes) : Prop where
  dual : v.dual = (new expected expectedSize none []).dual.update b
  expected_eq : v.expected = expected
  expectedSize_eq : v.expectedSize = expectedSize

variable {D : Digests} {v v' : StreamingVerifier} {expected : Hashes}
  {expectedSize : ℕ} {b data : Bytes}

theorem new_consumed (expected : Hashes) (expectedSize : ℕ)
    (tree : Option ChunkTree) (what : Text) :
    (new expected expectedSize tree what).Consumed expected expectedSize [] :=
  ⟨(DualHasher.update_nil _).symm, rfl, rfl⟩

/-- The counter of a verifier is the length of what it consumed. -/
theorem Consumed.bytesSeen (h : v.Consumed expected expectedSize b) :
    v.bytesSeen = b.length := by
  unfold StreamingVerifier.bytesSeen
  rw [h.dual, DualHasher.len_update]
  unfold new
  split <;> exact Nat.zero_add _

/-- A successful feed advances the hashers by the chunk and touches nothing
else but the leaf check. -/
theorem feed_eq_ok (h : v.feed D data = .ok v') :
    v'.dual = v.dual.update data ∧ v'.expected = v.expected ∧
      v'.expectedSize = v.expectedSize ∧ v'.what = v.what := by
  unfold feed at h
  split at h
  · cases h
    exact ⟨rfl, rfl, rfl, rfl⟩
  · split at h
    · cases h
      exact ⟨rfl, rfl, rfl, rfl⟩
    · cases h

/-- **Feeding appends to what was consumed.** -/
theorem feed_consumed (hv : v.Consumed expected expectedSize b)
    (h : v.feed D data = .ok v') : v'.Consumed expected expectedSize (b ++ data) := by
  obtain ⟨hdual, hexp, hsize, -⟩ := feed_eq_ok h
  refine ⟨?_, hexp.trans hv.expected_eq, hsize.trans hv.expectedSize_eq⟩
  rw [hdual, hv.dual, DualHasher.update_append]

/-- A verifier that finished passed the size and digest checks. -/
theorem finish_finishDigests {got : Hashes} (h : v.finish D = .ok got) :
    v.finishDigests D = .ok got := by
  unfold finish at h
  split at h
  · exact h
  · split at h
    · exact h
    · cases h

/-- What passing the size and digest checks says. -/
theorem finishDigests_eq_ok {got : Hashes} (h : v.finishDigests D = .ok got) :
    (v.expectedSize ≠ 0 → v.dual.len = v.expectedSize) ∧
      v.expected.mismatchAgainst got = none ∧ got = v.dual.finalize D := by
  unfold finishDigests at h
  dsimp only at h
  split at h
  · cases h
  · rename_i hsize
    split at h
    · cases h
    · rename_i hnone
      cases h
      exact ⟨fun h0 => by_contra fun hne => hsize ⟨h0, hne⟩, hnone, rfl⟩

/-- **`v'` is `v` after being fed `b`**, in some number of pieces, in order. -/
inductive Fed (D : Digests) (v : StreamingVerifier) : Bytes → StreamingVerifier → Prop
  | nil : Fed D v [] v
  | feed {b data : Bytes} {v₁ v₂ : StreamingVerifier} :
    Fed D v b v₁ → v₁.feed D data = .ok v₂ → Fed D v (b ++ data) v₂

theorem Fed.single (h : v.feed D data = .ok v') : Fed D v data v' := by
  have := Fed.nil.feed h
  rwa [List.nil_append] at this

theorem Fed.trans {a b : Bytes} {v₁ v₂ : StreamingVerifier} (h₁ : Fed D v a v₁)
    (h₂ : Fed D v₁ b v₂) : Fed D v (a ++ b) v₂ := by
  induction h₂ with
  | nil =>
    rw [List.append_nil]
    exact h₁
  | feed _ hfeed ih =>
    rw [← List.append_assoc]
    exact ih.feed hfeed

/-- A fresh verifier that was fed `b` has consumed `b`. -/
theorem Fed.consumed {tree : Option ChunkTree} {what : Text}
    (h : Fed D (new expected expectedSize tree what) b v) :
    v.Consumed expected expectedSize b := by
  induction h with
  | nil => exact new_consumed expected expectedSize tree what
  | feed _ hfeed ih => exact feed_consumed ih hfeed

/-- Without a chunk tree nothing that is fed is refused. -/
theorem feed_of_leafCheck_none (h : v.leafCheck = none) (data : Bytes) :
    v.feed D data = .ok { v with dual := v.dual.update data } := by
  unfold feed
  rw [h]

theorem Fed.leafCheck_none (h : Fed D v b v') (hv : v.leafCheck = none) :
    v'.leafCheck = none := by
  induction h with
  | nil => exact hv
  | feed _ hfeed ih =>
    rw [feed_of_leafCheck_none ih] at hfeed
    cases hfeed
    exact ih

/-- The hashers of a verifier take in what it is fed, chunk tree or not. -/
theorem Fed.dual (h : Fed D v b v') : v'.dual = v.dual.update b := by
  induction h with
  | nil => exact (DualHasher.update_nil _).symm
  | feed _ hfeed ih => rw [(feed_eq_ok hfeed).1, ih, DualHasher.update_append]

namespace Consumed

/-- The digests a verifier computes are those of what it consumed. -/
theorem finalize_blake3 (h : v.Consumed expected expectedSize b) :
    (v.dual.finalize D).blake3 = hexEncode (D.blake3 b) := by
  rw [h.dual]
  unfold new
  split <;> rfl

theorem finalize_sha256 (h : v.Consumed expected expectedSize b) :
    (v.dual.finalize D).sha256 = hexEncode (D.sha256 b) := by
  rw [h.dual]
  unfold new
  split <;> rfl

/-- Without a size there is no git hasher. -/
theorem finalize_git_nil (h : v.Consumed expected expectedSize b) (h0 : expectedSize = 0) :
    (v.dual.finalize D).gitBlobSha1 = [] := by
  rw [h.dual]
  unfold new
  rw [h0, if_neg (by rw [Bool.and_eq_true]; exact fun hand => absurd hand.2 (by decide))]
  rfl

/-- A declared git blob OID that agrees with the computed one is the git blob
OID of what was consumed: the header named a size, and the size turned out
right. Without a size there is no git hasher, and nothing agrees. -/
theorem finalize_git (h : v.Consumed expected expectedSize b)
    (hd : expected.hasGitBlobSha1)
    (hsize : expectedSize ≠ 0 → b.length = expectedSize)
    (heq : eqIgnoreAsciiCase expected.gitBlobSha1 (v.dual.finalize D).gitBlobSha1) :
    eqIgnoreAsciiCase expected.gitBlobSha1 (gitBlobOid D b) := by
  by_cases h0 : expectedSize = 0
  · rw [h.finalize_git_nil h0, Hashes.not_eqIgnoreAsciiCase_nil hd] at heq
    cases heq
  · rw [h.dual] at heq
    unfold new at heq
    rw [if_pos (by rw [hd, decide_eq_true (Nat.pos_of_ne_zero h0)]; rfl),
      DualHasher.finalize_git D (hsize h0)] at heq
    exact heq

end Consumed

/-- **The digest checks pass only on bytes that have the declared size and every
declared digest**, a git blob OID only where a size is declared, and yield their
BLAKE3 and SHA-256. -/
theorem finishDigests_match {got : Hashes} (hv : v.Consumed expected expectedSize b)
    (h : v.finishDigests D = .ok got) :
    expected.Match D b ∧ (expectedSize ≠ 0 → b.length = expectedSize) ∧
      got.blake3 = hexEncode (D.blake3 b) ∧ got.sha256 = hexEncode (D.sha256 b) ∧
      (expected.hasGitBlobSha1 → expectedSize ≠ 0) := by
  obtain ⟨hlen, hnone, rfl⟩ := finishDigests_eq_ok h
  rw [hv.expectedSize_eq] at hlen
  rw [hv.expected_eq] at hnone
  have hsize : expectedSize ≠ 0 → b.length = expectedSize :=
    fun h0 => hv.bytesSeen.symm.trans (hlen h0)
  obtain ⟨hb, hs, hg⟩ := Hashes.mismatchAgainst_eq_none_iff.mp hnone
  rw [hv.finalize_blake3] at hb
  rw [hv.finalize_sha256] at hs
  refine ⟨⟨hb, hs, fun hd => hv.finalize_git hd hsize (hg hd)⟩, hsize,
    hv.finalize_blake3, hv.finalize_sha256, fun hd h0 => ?_⟩
  have hgit := hg hd
  rw [hv.finalize_git_nil h0, Hashes.not_eqIgnoreAsciiCase_nil hd] at hgit
  cases hgit

/-- **Finishing succeeds only on bytes that have the declared size and every
declared digest**, and returns their BLAKE3 and SHA-256. -/
theorem finish_eq_ok {got : Hashes} (hv : v.Consumed expected expectedSize b)
    (h : v.finish D = .ok got) :
    expected.Match D b ∧ (expectedSize ≠ 0 → b.length = expectedSize) ∧
      got.blake3 = hexEncode (D.blake3 b) ∧ got.sha256 = hexEncode (D.sha256 b) := by
  obtain ⟨hmatch, hsize, hb, hs, -⟩ := finishDigests_match hv (finish_finishDigests h)
  exact ⟨hmatch, hsize, hb, hs⟩

end StreamingVerifier

end Atlas
