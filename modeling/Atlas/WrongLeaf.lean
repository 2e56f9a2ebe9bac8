import Atlas.Verify
import Atlas.Manifest

/-!
# What a wrong leaf says

A chunk tree of a content says of every leaf whether it is the content's. So a
leaf that does not verify has a byte that is not the content's
(`wrongAt_of_verifyLeaf`), and so has everything a verifier with the tree
refuses: a chunk while it is fed (`LeafCheck.wrongAt_of_feed`), and the whole
at the end (`StreamingVerifier.wrongAt_of_finish`). The wrong byte is never in
a leaf that was verified before.
-/

namespace Atlas

open Text

/-! ## Wrong bytes -/

/-- Bytes are wrong at an offset: there is a byte, and it is not the content's. -/
def WrongAt (T b : Bytes) (o : ℕ) : Prop := ∃ x, b[o]? = some x ∧ T[o]? ≠ some x

/-- Bytes that are wrong nowhere are a beginning of the content. -/
theorem prefix_of_not_wrongAt {T b : Bytes} (h : ∀ o, ¬ WrongAt T b o) : b <+: T := by
  rw [List.prefix_iff_getElem?]
  intro o ho
  by_contra hne
  exact h o ⟨b[o], List.getElem?_eq_getElem ho, hne⟩

/-- A byte of a leaf is a byte of the file. -/
theorem getElem?_leafOf {n i j : ℕ} {b : Bytes} (hj : j < n) :
    (leafOf n i b)[j]? = b[i * n + j]? := by
  unfold leafOf
  rw [List.getElem?_take_of_lt hj, List.getElem?_drop]

section Leaves

variable {D : Digests} {T : Bytes} {n : ℕ} {what : Text}

/-- Leaf hashes determine leaves. -/
theorem leafHash_injective (hinj : Function.Injective D.blake3) :
    Function.Injective (leafHash D) := fun _ _ h => (List.cons.inj (hinj h)).2

/-- What verifies against the content's tree is a leaf of the content. -/
theorem verifyLeaf_fromFile (hinj : Function.Injective D.blake3) {i : ℕ} {leaf : Bytes} :
    (ChunkTree.fromFile D T n).verifyLeaf D i leaf = true ↔
      i * (ChunkTree.fromFile D T n).leafSize < T.length ∧
        leaf = leafOf (ChunkTree.fromFile D T n).leafSize i T := by
  unfold ChunkTree.fromFile
  rw [ChunkTree.verifyLeaf_leavesOf]
  exact and_congr_right fun _ => (leafHash_injective hinj).eq_iff

theorem leafSize_fromFile_pos (D : Digests) (T : Bytes) (n : ℕ) :
    0 < (ChunkTree.fromFile D T n).leafSize :=
  Nat.lt_of_lt_of_le Nat.one_pos (Nat.le_max_left _ _)

/-- **A leaf that does not verify has a wrong byte.** -/
theorem wrongAt_of_verifyLeaf (hinj : Function.Injective D.blake3) {i : ℕ} {b : Bytes}
    (hfull : (i + 1) * (ChunkTree.fromFile D T n).leafSize ≤ b.length)
    (h : (ChunkTree.fromFile D T n).verifyLeaf D i
      (leafOf (ChunkTree.fromFile D T n).leafSize i b) = false) :
    ∃ o, i * (ChunkTree.fromFile D T n).leafSize ≤ o ∧ WrongAt T b o := by
  have hpos := leafSize_fromFile_pos D T n
  generalize hls : (ChunkTree.fromFile D T n).leafSize = ls at *
  by_contra hnone
  rw [Nat.succ_mul] at hfull
  have hsame : ∀ j < ls, b[i * ls + j]? = T[i * ls + j]? := by
    intro j hj
    by_contra hne
    refine hnone ⟨i * ls + j, Nat.le_add_right _ _, b[i * ls + j],
      List.getElem?_eq_getElem (by omega), fun heq => hne ?_⟩
    rw [heq]
    exact List.getElem?_eq_getElem _
  have hreach : i * ls < T.length := by
    by_contra hge
    have hend : T[i * ls + 0]? = none := List.getElem?_eq_none (by omega)
    have hzero := (hsame 0 hpos).trans hend
    rw [List.getElem?_eq_none_iff] at hzero
    omega
  have hleaf : leafOf ls i b = leafOf ls i T := by
    refine List.ext_getElem? fun j => ?_
    by_cases hj : j < ls
    · rw [getElem?_leafOf hj, getElem?_leafOf hj]
      exact hsame j hj
    · rw [List.getElem?_eq_none, List.getElem?_eq_none] <;>
        · unfold leafOf
          rw [List.length_take]
          omega
  have hverify : (ChunkTree.fromFile D T n).verifyLeaf D i (leafOf ls i b) = true :=
    (verifyLeaf_fromFile hinj).mpr ⟨hls ▸ hreach, hls ▸ hleaf⟩
  rw [hverify] at h
  cases h

/-- The content has as many leaves as it takes to reach its end. -/
theorem numLeaves_fromFile {k : ℕ} (hend : T.length ≤ k * (ChunkTree.fromFile D T n).leafSize)
    (hlast : ∀ i < k, i * (ChunkTree.fromFile D T n).leafSize < T.length) :
    (ChunkTree.fromFile D T n).numLeaves = k := by
  have hpos := leafSize_fromFile_pos D T n
  have hget := ChunkTree.leavesOf_getElem? D hpos T
  refine Nat.le_antisymm ?_ ?_
  · rw [ChunkTree.numLeaves, ← List.getElem?_eq_none_iff]
    exact (hget k).trans (if_neg (Nat.not_lt_of_le hend))
  · by_contra hlt
    have hnone := hget (ChunkTree.fromFile D T n).numLeaves
    rw [if_pos (hlast _ (Nat.lt_of_not_le hlt))] at hnone
    exact absurd (hnone.symm.trans (List.getElem?_eq_none (Nat.le_refl _))) (by simp)

namespace LeafCheck

variable {c : LeafCheck} {b : Bytes}

/-- The number of verified leaves is how many full leaves came. -/
theorem Consumed.leafIndex_eq (hc : c.Consumed D b) :
    c.leafIndex = b.length / c.tree.leafSize := by
  have hlen := congrArg List.length hc.leafBuf_eq
  rw [List.length_drop] at hlen
  have hlt := hc.leafBuf_lt
  have hle := hc.le
  refine (Nat.div_eq_of_lt_le hle ?_).symm
  rw [Nat.succ_mul]
  omega

/-- Verified leaves are true. -/
theorem Consumed.true_below (hinj : Function.Injective D.blake3) (hc : c.Consumed D b)
    (htree : c.tree = ChunkTree.fromFile D T n) {o : ℕ}
    (ho : o < c.leafIndex * c.tree.leafSize) : b[o]? = T[o]? := by
  have hpos : 0 < c.tree.leafSize := Nat.zero_lt_of_lt hc.leafBuf_lt
  have hi : o / c.tree.leafSize < c.leafIndex := (Nat.div_lt_iff_lt_mul hpos).mpr ho
  have hv := hc.verified _ hi
  rw [htree] at hv hpos
  have hleaf := ((verifyLeaf_fromFile hinj).mp hv).2
  have hmod := Nat.mod_lt o hpos
  have hbyte := congrArg (·[o % (ChunkTree.fromFile D T n).leafSize]?) hleaf
  rwa [getElem?_leafOf hmod, getElem?_leafOf hmod, Nat.div_add_mod'] at hbyte

/-- **What fails while it is fed has a wrong byte**, after the leaves that were verified. -/
theorem wrongAt_of_feed (hinj : Function.Injective D.blake3) (hc : c.Consumed D b)
    (htree : c.tree = ChunkTree.fromFile D T n) {data : Bytes} {e : Error}
    (h : c.feed D what data = .error e) :
    ∃ o, c.leafIndex * c.tree.leafSize ≤ o ∧ WrongAt T (b ++ data) o := by
  have hspec := feed_spec D what c data b hc
  rw [h] at hspec
  obtain ⟨i, hi, hfull, hverify, -⟩ := hspec
  rw [htree] at hfull hverify ⊢
  obtain ⟨o, ho, hwrong⟩ := wrongAt_of_verifyLeaf hinj hfull hverify
  exact ⟨o, (Nat.mul_le_mul_right _ hi).trans ho, hwrong⟩

/-- The content itself passes the leaf check at the end. -/
theorem Consumed.finishLeaves_content (hinj : Function.Injective D.blake3)
    (hc : c.Consumed D T)
    (htree : c.tree = ChunkTree.fromFile D T n) :
    StreamingVerifier.finishLeaves D what c = .ok () := by
  have hpos : 0 < c.tree.leafSize := Nat.zero_lt_of_lt hc.leafBuf_lt
  have hlt := hc.leafBuf_lt
  have hle := hc.le
  have hlen := congrArg List.length hc.leafBuf_eq
  rw [List.length_drop] at hlen
  have hcount : ∀ k, T.length ≤ k * c.tree.leafSize →
      (∀ i < k, i * c.tree.leafSize < T.length) →
      StreamingVerifier.finishLeaves.countLeaves what c.tree k = .ok () := by
    intro k hend hlast
    unfold StreamingVerifier.finishLeaves.countLeaves
    rw [htree] at hend hlast ⊢
    rw [if_pos (numLeaves_fromFile hend hlast).symm]
  have hbelow : ∀ i < c.leafIndex, i * c.tree.leafSize < T.length := by
    intro i hi
    have hnext := (Nat.mul_le_mul_right c.tree.leafSize hi).trans hle
    rw [Nat.succ_mul] at hnext
    omega
  unfold StreamingVerifier.finishLeaves
  by_cases hbuf : c.leafBuf = []
  · rw [if_pos hbuf]
    rw [hbuf, List.length_nil] at hlen
    exact hcount _ (by omega) hbelow
  · have hbufpos := List.length_pos_iff.mpr hbuf
    have hverify : c.tree.verifyLeaf D c.leafIndex c.leafBuf = true := by
      rw [htree]
      refine (verifyLeaf_fromFile hinj).mpr ⟨by rw [← htree]; omega, ?_⟩
      unfold leafOf
      rw [← htree, ← hc.leafBuf_eq, List.take_of_length_le hlt.le]
    rw [if_neg hbuf, if_pos hverify]
    refine hcount _ ?_ fun i hi => ?_
    · rw [Nat.succ_mul]
      omega
    · obtain hi | rfl := Nat.lt_succ_iff_lt_or_eq.mp hi
      · exact hbelow i hi
      · omega

end LeafCheck

namespace StreamingVerifier

variable {v v' : StreamingVerifier} {expected : Hashes} {expectedSize : ℕ} {b : Bytes}

/-- A verifier with a tree has a leaf check that consumed what it was fed. -/
theorem Fed.leafConsumed {tree : ChunkTree} (hpos : 0 < tree.leafSize)
    (h : Fed D (new expected expectedSize (some tree) what) b v) :
    ∃ c, v.leafCheck = some c ∧ c.tree = tree ∧ c.Consumed D b := by
  induction h with
  | nil => exact ⟨LeafCheck.new tree, rfl, rfl, LeafCheck.new_consumed D hpos⟩
  | @feed b data v₁ v₂ _ hfeed ih =>
    obtain ⟨c, hcheck, htree, hc⟩ := ih
    have hspec := LeafCheck.feed_spec D v₁.what c data b hc
    unfold StreamingVerifier.feed at hfeed
    rw [hcheck] at hfeed
    dsimp only at hfeed
    cases hleaf : c.feed D v₁.what data with
    | error e =>
      rw [hleaf] at hfeed
      cases hfeed
    | ok c' =>
      rw [hleaf] at hfeed hspec
      cases hfeed
      exact ⟨c', rfl, hspec.1.trans htree, hspec.2⟩

/-- With a leaf check, only the leaf check refuses a chunk. -/
theorem feed_eq_error {c : LeafCheck} (hcheck : v.leafCheck = some c) {data : Bytes}
    {e : Error} (h : v.feed D data = .error e) : c.feed D v.what data = .error e := by
  unfold feed at h
  rw [hcheck] at h
  dsimp only at h
  cases hleaf : c.feed D v.what data with
  | ok c' =>
    rw [hleaf] at h
    cases h
  | error e' =>
    rw [hleaf] at h
    cases h
    rfl

/-- **The content itself passes the digest checks**, if a git OID is declared
together with the size only. -/
theorem finishDigests_content (hv : v.Consumed expected expectedSize T)
    (hmatch : expected.Match D T) (hsize : expectedSize ≠ 0 → T.length = expectedSize)
    (hgit : expectedSize = 0 → expected.hasGitBlobSha1 = false) :
    ∃ got, v.finishDigests D = .ok got := by
  have hlen : v.dual.len = T.length := hv.bytesSeen
  have hnone : v.expected.mismatchAgainst (v.dual.finalize D) = none := by
    rw [hv.expected_eq, Hashes.mismatchAgainst_eq_none_iff, hv.finalize_blake3,
      hv.finalize_sha256]
    refine ⟨hmatch.blake3, hmatch.sha256, fun hd => ?_⟩
    by_cases h0 : expectedSize = 0
    · rw [hgit h0] at hd
      cases hd
    · have hdual := hv.dual
      unfold new at hdual
      rw [if_pos (by rw [hd, decide_eq_true (Nat.pos_of_ne_zero h0)]; rfl)] at hdual
      rw [hdual, DualHasher.finalize_git D (hsize h0)]
      exact hmatch.gitBlobSha1 hd
  unfold finishDigests
  rw [if_neg (fun h => h.2 (by rw [hlen, hv.expectedSize_eq] at *; exact hsize h.1))]
  dsimp only
  rw [hnone]
  exact ⟨_, rfl⟩

/-- **What fails at the end has a wrong byte**, after the leaves that were
verified, if it is as long as the content. -/
theorem wrongAt_of_finish (hinj : Function.Injective D.blake3)
    (hv : v.Consumed expected expectedSize b) {c : LeafCheck} (hcheck : v.leafCheck = some c)
    (htree : c.tree = ChunkTree.fromFile D T n) (hc : c.Consumed D b)
    (hmatch : expected.Match D T) (hsize : expectedSize ≠ 0 → T.length = expectedSize)
    (hgit : expectedSize = 0 → expected.hasGitBlobSha1 = false)
    (hlen : T.length ≤ b.length) {e : Error} (h : v.finish D = .error e) :
    ∃ o, c.leafIndex * c.tree.leafSize ≤ o ∧ WrongAt T b o := by
  by_contra hnone
  have hpre : b <+: T := by
    refine prefix_of_not_wrongAt fun o hwrong => ?_
    by_cases ho : o < c.leafIndex * c.tree.leafSize
    · obtain ⟨x, hx, hne⟩ := hwrong
      exact hne ((hc.true_below hinj htree ho).symm.trans hx)
    · exact hnone ⟨o, Nat.le_of_not_lt ho, hwrong⟩
  obtain rfl := hpre.eq_of_length_le hlen
  obtain ⟨got, hgot⟩ := finishDigests_content hv hmatch hsize hgit
  unfold finish at h
  rw [hcheck] at h
  dsimp only at h
  rw [hc.finishLeaves_content hinj htree] at h
  dsimp only at h
  rw [hgot] at h
  cases h

end StreamingVerifier

end Leaves

end Atlas
