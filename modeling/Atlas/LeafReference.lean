import Atlas.WrongLeaf

/-!
# The streaming verifier against the leaves of a file

`ChunkTree.fromFile` cuts a file it reads into leaves, `StreamingVerifier` cuts
a stream that arrives in chunks of any lengths; both are compared here with the
plain list of consecutive blocks (`blocks`). The verifier carries the beginning
of a leaf from one chunk to the next, so the comparison goes by what it has
consumed: after any chunks the verified leaves are the full blocks so far, and a
refusal names the first block that differs (`feedAll_spec`). At the end the last,
possibly partial block is checked and the blocks are counted, which makes
acceptance the equality of two lists (`blocksAgree_iff`).
-/

namespace Atlas

open Text

/-- The consecutive blocks of `n` bytes of a byte string, the last one possibly partial. -/
def blocks (n : ℕ) (d : Bytes) : List Bytes :=
  (List.range ((d.length + n - 1) / n)).map fun i => leafOf n i d

/-- Block `i` is there as long as the byte string reaches it. -/
theorem getElem?_blocks {n : ℕ} (hpos : 0 < n) (d : Bytes) (i : ℕ) :
    (blocks n d)[i]? = if i * n < d.length then some (leafOf n i d) else none := by
  have hiff : i < (d.length + n - 1) / n ↔ i * n < d.length := by
    rw [← Nat.succ_le_iff, Nat.le_div_iff_mul_le hpos, Nat.succ_mul]
    omega
  unfold blocks
  rw [List.getElem?_map]
  by_cases hi : i * n < d.length
  · rw [if_pos hi, List.getElem?_range (hiff.mpr hi)]
    rfl
  · rw [if_neg hi, List.getElem?_eq_none]
    · rfl
    · rw [List.length_range]
      exact Nat.le_of_not_lt fun h => hi (hiff.mp h)

/-- **The leaves of a file are the hashes of its blocks.** -/
theorem ChunkTree.leavesOf_eq (D : Digests) {n : ℕ} (hpos : 0 < n) (d : Bytes) :
    leavesOf D n hpos d = (blocks n d).map (leafHash D) := by
  ext1 i
  rw [leavesOf_getElem?, List.getElem?_map, getElem?_blocks hpos]
  by_cases hi : i * n < d.length
  · rw [if_pos hi, if_pos hi]
    rfl
  · rw [if_neg hi, if_neg hi]
    rfl

/-- The tree of a file, where the leaf size needs no clamping. -/
theorem ChunkTree.fromFile_eq (D : Digests) {n : ℕ} (hpos : 0 < n) (hmax : n ≤ MAX_LEAF_SIZE)
    (d : Bytes) : fromFile D d n = ⟨n, (blocks n d).map (leafHash D)⟩ := by
  have hclamp : max 1 (min n MAX_LEAF_SIZE) = n := by
    rw [Nat.min_eq_left hmax]
    exact Nat.max_eq_right hpos
  unfold fromFile
  simp only [hclamp, leavesOf_eq]

section

variable {D : Digests} {tree : ChunkTree} {what : Text} {b d : Bytes}

/-- A block has its recorded hash, so that the tree has nothing against it. -/
def BlockAgrees (D : Digests) (tree : ChunkTree) (d : Bytes) (i : ℕ) : Prop :=
  tree.verifyLeaf D i (leafOf tree.leafSize i d) = true

/-- **The first block that does not have its recorded hash**, a block that the
tree has none for among them. -/
structure FirstDiffers (D : Digests) (tree : ChunkTree) (d : Bytes) (i : ℕ) : Prop where
  reached : i * tree.leafSize < d.length
  differs : ¬ BlockAgrees D tree d i
  before : ∀ j < i, BlockAgrees D tree d j

theorem blockAgrees_iff (D : Digests) (tree : ChunkTree) (d : Bytes) (i : ℕ) :
    BlockAgrees D tree d i ↔ tree.leaves[i]? = some (leafHash D (leafOf tree.leafSize i d)) := by
  unfold BlockAgrees ChunkTree.verifyLeaf
  cases tree.leaves[i]? with
  | none => exact ⟨nofun, nofun⟩
  | some expected =>
    show (leafHash D (leafOf tree.leafSize i d) == expected) = true ↔ _
    rw [beq_iff_eq, Option.some_inj, eq_comm]

/-- **Every block agrees and no leaf is left over exactly if the recorded hashes
are the hashes of the blocks.** -/
theorem blocksAgree_iff (hpos : 0 < tree.leafSize) {k : ℕ}
    (hend : d.length ≤ k * tree.leafSize) (hlast : ∀ i < k, i * tree.leafSize < d.length) :
    ((∀ i < k, BlockAgrees D tree d i) ∧ k = tree.numLeaves) ↔
      (blocks tree.leafSize d).map (leafHash D) = tree.leaves := by
  have hcount : ∀ i, i < k ↔ i * tree.leafSize < d.length := by
    refine fun i => ⟨hlast i, fun hi => ?_⟩
    by_contra hge
    exact absurd ((Nat.mul_le_mul_right _ (Nat.le_of_not_lt hge)).trans_lt hi)
      (Nat.not_lt_of_le hend)
  have hget : ∀ i, ((blocks tree.leafSize d).map (leafHash D))[i]? =
      if i < k then some (leafHash D (leafOf tree.leafSize i d)) else none := by
    intro i
    rw [List.getElem?_map, getElem?_blocks hpos]
    simp only [hcount i]
    by_cases hi : i * tree.leafSize < d.length
    · rw [if_pos hi, if_pos hi]
      rfl
    · rw [if_neg hi, if_neg hi]
      rfl
  constructor
  · rintro ⟨hall, hnum⟩
    ext1 i
    rw [hget]
    by_cases hi : i < k
    · rw [if_pos hi, (blockAgrees_iff D tree d i).mp (hall i hi)]
    · have hge : tree.numLeaves ≤ i := hnum ▸ Nat.le_of_not_lt hi
      rw [if_neg hi, List.getElem?_eq_none hge]
  · intro heq
    refine ⟨fun i hi => (blockAgrees_iff D tree d i).mpr ?_, Nat.le_antisymm ?_ ?_⟩
    · rw [← heq, hget, if_pos hi]
    · by_contra hlt
      have hnone := hget tree.numLeaves
      have hover : tree.leaves[tree.numLeaves]? = none :=
        List.getElem?_eq_none (Nat.le_refl _)
      rw [if_pos (Nat.lt_of_not_le hlt), heq, hover] at hnone
      cases hnone
    · by_contra hlt
      have hnone := hget k
      rw [if_neg (Nat.lt_irrefl k), heq, List.getElem?_eq_none_iff] at hnone
      exact hlt hnone

namespace LeafCheck

variable {c : LeafCheck}

/-- Blocks that were verified before more bytes came are still verified. -/
theorem Consumed.agrees (hc : c.Consumed D b) (data : Bytes) :
    ∀ j < c.leafIndex, BlockAgrees D c.tree (b ++ data) j := by
  intro j hj
  show c.tree.verifyLeaf D j (leafOf c.tree.leafSize j (b ++ data)) = true
  rw [Consumed.leafOf_append data ((Nat.mul_le_mul_right _ hj).trans hc.le)]
  exact hc.verified j hj

/-- **A refused chunk completes the first block that differs.** -/
theorem feed_error (D : Digests) (what : Text) (c : LeafCheck) (data b : Bytes)
    (hc : c.Consumed D b) {e : Error} (h : c.feed D what data = .error e) :
    ∃ i, (i + 1) * c.tree.leafSize ≤ (b ++ data).length ∧
      FirstDiffers D c.tree (b ++ data) i ∧
      e = leafMismatch D what c.tree i (leafOf c.tree.leafSize i (b ++ data)) := by
  induction c, data using feed.induct D generalizing b with
  | case1 c =>
    rw [feed, if_pos rfl] at h
    cases h
  | case2 c data hdata take leafBuf hfull hv ih =>
    rw [feed, if_neg hdata, if_pos hfull, if_pos hv] at h
    have hnext := ih _ (hc.full_leaf hfull hv) h
    rwa [List.append_assoc, List.take_append_drop] at hnext
  | case3 c data hdata take leafBuf hfull hv =>
    rw [feed, if_neg hdata, if_pos hfull, if_neg hv] at h
    cases h
    obtain ⟨hlen, hleaf⟩ := hc.filled hfull
    refine ⟨c.leafIndex, hlen, ⟨?_, ?_, hc.agrees data⟩, by rw [hleaf]⟩
    · have hpos := Nat.zero_lt_of_lt hc.leafBuf_lt
      rw [Nat.succ_mul] at hlen
      omega
    · show ¬ c.tree.verifyLeaf D c.leafIndex (leafOf _ c.leafIndex (b ++ data)) = true
      rw [hleaf]
      exact hv
  | case4 c data hdata take leafBuf hfull ih =>
    rw [feed, if_neg hdata, if_neg hfull] at h
    have hle : (c.leafBuf ++ data.take take).length ≤ c.tree.leafSize := by
      have := c.leafBuf_le
      rw [List.length_append, List.length_take]
      omega
    have hnext := ih _ (hc.partial_leaf (Nat.lt_of_le_of_ne hle hfull) hle) h
    rwa [List.append_assoc, List.take_append_drop] at hnext

end LeafCheck

/-- Blocks that are complete agree, or not, as before when more bytes come. -/
theorem blockAgrees_append {i : ℕ} (h : (i + 1) * tree.leafSize ≤ b.length) (data : Bytes) :
    BlockAgrees D tree (b ++ data) i ↔ BlockAgrees D tree b i := by
  unfold BlockAgrees
  rw [LeafCheck.Consumed.leafOf_append data h]

theorem FirstDiffers.append {i : ℕ} (hi : FirstDiffers D tree b i)
    (h : (i + 1) * tree.leafSize ≤ b.length) (data : Bytes) :
    FirstDiffers D tree (b ++ data) i := by
  refine ⟨?_, fun hagree => hi.differs ((blockAgrees_append h data).mp hagree),
    fun j hj => (blockAgrees_append ?_ data).mpr (hi.before j hj)⟩
  · rw [List.length_append]
    exact Nat.lt_add_right _ hi.reached
  · exact (Nat.mul_le_mul_right _ (Nat.succ_le_succ hj.le)).trans h

/-- There is one first block that differs. -/
theorem FirstDiffers.unique {i j : ℕ} (hi : FirstDiffers D tree d i)
    (hj : FirstDiffers D tree d j) : i = j := by
  obtain h | h | h := Nat.lt_trichotomy i j
  · exact absurd (hj.before i h) hi.differs
  · exact h
  · exact absurd (hi.before j h) hj.differs

/-! ## Whole streams -/

namespace StreamingVerifier

variable {v : StreamingVerifier} {c : LeafCheck} {expected : Hashes} {expectedSize : ℕ}

/-- Feed chunks, in order, up to the first that is refused. -/
def feedAll (D : Digests) (v : StreamingVerifier) :
    List Bytes → Except Error StreamingVerifier
  | [] => .ok v
  | chunk :: chunks =>
    match v.feed D chunk with
    | .ok v' => feedAll D v' chunks
    | .error e => .error e

/-- Feed chunks, in order, and finish, as every path that verifies a stream does. -/
def verifyChunks (D : Digests) (v : StreamingVerifier) (chunks : List Bytes) :
    Except Error Hashes :=
  match v.feedAll D chunks with
  | .ok v' => v'.finish D
  | .error e => .error e

/-- What feeding some chunks comes to, `d` being all bytes so far: they were all
taken in, or a block is complete that is the first to differ. -/
def FedSpec (D : Digests) (v : StreamingVerifier) (tree : ChunkTree) (fed d : Bytes) :
    Except Error StreamingVerifier → Prop
  | .ok v' => Fed D v fed v' ∧ v'.what = v.what ∧
      ∃ c, v'.leafCheck = some c ∧ c.tree = tree ∧ c.Consumed D d
  | .error e => ∃ i, (i + 1) * tree.leafSize ≤ d.length ∧ FirstDiffers D tree d i ∧
      e = leafMismatch D v.what tree i (leafOf tree.leafSize i d)

/-- **What feeding chunks comes to.** -/
theorem feedAll_spec (hcheck : v.leafCheck = some c) (hc : c.Consumed D b)
    (chunks : List Bytes) :
    FedSpec D v c.tree chunks.flatten (b ++ chunks.flatten) (v.feedAll D chunks) := by
  -- on the chunks; `b` is what came before, and the first leaf that differs does not depend on what
  -- follows it
  induction chunks generalizing v c b with
  | nil =>
    rw [List.flatten_nil, List.append_nil]
    exact ⟨.nil, rfl, c, hcheck, rfl, hc⟩
  | cons chunk chunks ih =>
    rw [List.flatten_cons, ← List.append_assoc]
    unfold feedAll
    cases hfeed : v.feed D chunk with
    | error e =>
      obtain ⟨i, hlen, hfirst, he⟩ := c.feed_error D v.what chunk b hc
        (feed_eq_error hcheck hfeed)
      refine ⟨i, ?_, hfirst.append hlen _, ?_⟩
      · rw [List.length_append]
        exact hlen.trans (Nat.le_add_right _ _)
      · rw [he, LeafCheck.Consumed.leafOf_append _ hlen]
    | ok v₁ =>
      have hspec := LeafCheck.feed_spec D v.what c chunk b hc
      have hwhat := (feed_eq_ok hfeed).2.2.2
      have hstep := Fed.single hfeed
      unfold feed at hfeed
      rw [hcheck] at hfeed
      dsimp only at hfeed
      cases hleaf : c.feed D v.what chunk with
      | error e =>
        rw [hleaf] at hfeed
        cases hfeed
      | ok c₁ =>
        rw [hleaf] at hfeed hspec
        cases hfeed
        obtain ⟨htree, hc₁⟩ := hspec
        have hrest := ih (v := { v with dual := v.dual.update chunk, leafCheck := some c₁ })
          rfl hc₁
        rw [htree] at hrest
        show FedSpec D v c.tree (chunk ++ chunks.flatten) (b ++ chunk ++ chunks.flatten)
          (feedAll D _ chunks)
        revert hrest
        cases feedAll D _ chunks with
        | ok v₂ => exact fun ⟨hfed, hsame, hrest⟩ => ⟨hstep.trans hfed, hsame.trans hwhat, hrest⟩
        | error e => exact fun hrest => hrest

/-- **The end of the leaf check.** -/
theorem finishLeaves_spec (what : Text) (hc : c.Consumed D d) :
    (finishLeaves D what c = .ok () ↔
        (blocks c.tree.leafSize d).map (leafHash D) = c.tree.leaves) ∧
      ∀ i, FirstDiffers D c.tree d i →
        finishLeaves D what c =
          .error (leafMismatch D what c.tree i (leafOf c.tree.leafSize i d)) := by
  have hpos : 0 < c.tree.leafSize := Nat.zero_lt_of_lt hc.leafBuf_lt
  have hlt := hc.leafBuf_lt
  have hle := hc.le
  have hlen := congrArg List.length hc.leafBuf_eq
  rw [List.length_drop] at hlen
  have hbelow : ∀ i < c.leafIndex, i * c.tree.leafSize < d.length := by
    intro i hi
    have hnext := (Nat.mul_le_mul_right c.tree.leafSize hi).trans hle
    rw [Nat.succ_mul] at hnext
    omega
  -- with all `k` blocks verified only their number is left to compare
  have hcount : ∀ k, d.length ≤ k * c.tree.leafSize → (∀ i < k, i * c.tree.leafSize < d.length) →
      (∀ i < k, BlockAgrees D c.tree d i) →
      (finishLeaves.countLeaves what c.tree k = .ok () ↔
        (blocks c.tree.leafSize d).map (leafHash D) = c.tree.leaves) ∧
      ∀ i, ¬ FirstDiffers D c.tree d i := by
    intro k hend hlast hall
    refine ⟨?_, fun i hi => hi.differs (hall i ?_)⟩
    · rw [← blocksAgree_iff hpos hend hlast]
      unfold finishLeaves.countLeaves
      by_cases hk : k = c.tree.numLeaves
      · rw [if_pos hk]
        exact ⟨fun _ => ⟨hall, hk⟩, fun _ => rfl⟩
      · rw [if_neg hk]
        exact ⟨nofun, fun h => absurd h.2 hk⟩
    · by_contra hge
      exact absurd ((Nat.mul_le_mul_right _ (Nat.le_of_not_lt hge)).trans_lt hi.reached)
        (Nat.not_lt_of_le hend)
  unfold finishLeaves
  by_cases hbuf : c.leafBuf = []
  · rw [if_pos hbuf]
    rw [hbuf, List.length_nil] at hlen
    obtain ⟨hok, hnone⟩ := hcount c.leafIndex (by omega) hbelow hc.verified
    exact ⟨hok, fun i hi => absurd hi (hnone i)⟩
  · have hbufpos := List.length_pos_iff.mpr hbuf
    have hleaf : leafOf c.tree.leafSize c.leafIndex d = c.leafBuf := by
      unfold leafOf
      rw [← hc.leafBuf_eq, List.take_of_length_le hlt.le]
    have hend : d.length ≤ (c.leafIndex + 1) * c.tree.leafSize := by
      rw [Nat.succ_mul]
      omega
    have hlast : ∀ i < c.leafIndex + 1, i * c.tree.leafSize < d.length := by
      intro i hi
      obtain hi | rfl := Nat.lt_succ_iff_lt_or_eq.mp hi
      · exact hbelow i hi
      · omega
    rw [if_neg hbuf]
    by_cases hverify : c.tree.verifyLeaf D c.leafIndex c.leafBuf = true
    · have hall : ∀ i < c.leafIndex + 1, BlockAgrees D c.tree d i := by
        intro i hi
        obtain hi | rfl := Nat.lt_succ_iff_lt_or_eq.mp hi
        · exact hc.verified i hi
        · show c.tree.verifyLeaf D c.leafIndex (leafOf _ c.leafIndex d) = true
          rw [hleaf]
          exact hverify
      rw [if_pos hverify]
      obtain ⟨hok, hnone⟩ := hcount _ hend hlast hall
      exact ⟨hok, fun i hi => absurd hi (hnone i)⟩
    · have hdiffers : FirstDiffers D c.tree d c.leafIndex := by
        refine ⟨hlast _ (Nat.lt_succ_self _), ?_, hc.verified⟩
        show ¬ c.tree.verifyLeaf D c.leafIndex (leafOf _ c.leafIndex d) = true
        rw [hleaf]
        exact hverify
      rw [if_neg hverify]
      refine ⟨⟨nofun, fun heq => ?_⟩, fun i hi => ?_⟩
      · exact absurd (((blocksAgree_iff hpos hend hlast).mpr heq).1 _ (Nat.lt_succ_self _))
          hdiffers.differs
      · rw [hi.unique hdiffers, hleaf]

/-- **What passes the size and digest checks.** A declared git blob OID needs a
declared size as well. -/
theorem finishDigests_ok_iff (hv : v.Consumed expected expectedSize d) :
    (∃ got, v.finishDigests D = .ok got) ↔
      expected.Match D d ∧ (expectedSize ≠ 0 → d.length = expectedSize) ∧
        (expected.hasGitBlobSha1 → expectedSize ≠ 0) := by
  constructor
  · rintro ⟨got, hok⟩
    obtain ⟨hmatch, hsize, -, -, hgit⟩ := finishDigests_match hv hok
    exact ⟨hmatch, hsize, hgit⟩
  · rintro ⟨hmatch, hsize, hgit⟩
    refine finishDigests_content hv hmatch hsize fun h0 => ?_
    exact Bool.eq_false_iff.mpr fun hd => hgit hd h0

/-- **What a stream has to be**: its blocks have the recorded hashes, and it has
the declared size and the declared digests. -/
structure Reference (D : Digests) (tree : ChunkTree) (expected : Hashes) (expectedSize : ℕ)
    (d : Bytes) : Prop where
  leaves : (blocks tree.leafSize d).map (leafHash D) = tree.leaves
  size : expectedSize ≠ 0 → d.length = expectedSize
  digests : expected.Match D d

/-- **A stream that is checked to its end.** Chunks are taken in as long as the
complete blocks agree; the first block that differs is named, wherever the chunks
are cut; and the stream is accepted exactly if it is what it has to be and no git
blob OID is declared without a size. -/
theorem verifyChunks_spec (hpos : 0 < tree.leafSize) (expected : Hashes) (expectedSize : ℕ)
    (what : Text) (chunks : List Bytes) :
    ((∃ v, (new expected expectedSize (some tree) what).feedAll D chunks = .ok v) ↔
        ∀ i, (i + 1) * tree.leafSize ≤ chunks.flatten.length →
          BlockAgrees D tree chunks.flatten i) ∧
      (∀ i, FirstDiffers D tree chunks.flatten i →
        (new expected expectedSize (some tree) what).verifyChunks D chunks =
          .error (leafMismatch D what tree i (leafOf tree.leafSize i chunks.flatten))) ∧
      ((∃ got, (new expected expectedSize (some tree) what).verifyChunks D chunks = .ok got) ↔
        Reference D tree expected expectedSize chunks.flatten ∧
          (expected.hasGitBlobSha1 → expectedSize ≠ 0)) := by
  have hspec : FedSpec D (new expected expectedSize (some tree) what) tree chunks.flatten
      chunks.flatten ((new expected expectedSize (some tree) what).feedAll D chunks) := by
    rw [← List.nil_append chunks.flatten]
    exact feedAll_spec rfl (LeafCheck.new_consumed D hpos) chunks
  unfold verifyChunks
  cases hfeed : (new expected expectedSize (some tree) what).feedAll D chunks with
  -- the feed stops at the first leaf that differs, and only once all of that leaf has come
  | error e =>
    rw [hfeed] at hspec
    obtain ⟨i, hlen, hfirst, rfl⟩ := hspec
    refine ⟨⟨by rintro ⟨_, ⟨⟩⟩, fun hall => absurd (hall i hlen) hfirst.differs⟩,
      fun j hj => by rw [hj.unique hfirst]; rfl, by rintro ⟨_, ⟨⟩⟩, fun h => ?_⟩
    have hagree := (blockAgrees_iff D tree chunks.flatten i).mpr (by
      rw [← h.1.leaves, List.getElem?_map, getElem?_blocks hpos, if_pos hfirst.reached]
      rfl)
    exact absurd hagree hfirst.differs
  | ok v =>
    rw [hfeed] at hspec
    obtain ⟨hfed, hwhat, c, hcheck, htree, hc⟩ := hspec
    obtain ⟨hok, hdiffers⟩ := finishLeaves_spec v.what hc
    rw [htree] at hok hdiffers
    have hfinish : v.finish D =
        (finishLeaves D v.what c).bind fun _ => v.finishDigests D := by
      unfold finish
      cases h : finishLeaves D v.what c with
      | ok _ => simp only [hcheck, h, Except.bind]
      | error _ => simp only [hcheck, h, Except.bind]
    dsimp only
    rw [hfinish]
    refine ⟨⟨fun _ i hi => ?_, fun _ => ⟨v, rfl⟩⟩, fun i hi => ?_, ?_⟩
    · have hlt : i < c.leafIndex := by
        have hlt := hc.leafBuf_lt
        rw [hc.leafBuf_eq, List.length_drop, htree] at hlt
        have hle := hc.le
        rw [htree] at hle
        by_contra hge
        have hmul := Nat.mul_le_mul_right tree.leafSize (Nat.le_of_not_lt hge)
        rw [Nat.succ_mul] at hi
        omega
      have hverified := hc.verified i hlt
      rw [htree] at hverified
      exact hverified
    · rw [hdiffers i hi, hwhat]
      rfl
    -- every whole leaf agreed; the last, shorter one and the digests are settled by `finish`
    · have hdigests := finishDigests_ok_iff (D := D) hfed.consumed
      cases hleaves : finishLeaves D v.what c with
      | error e =>
        refine ⟨by rintro ⟨_, ⟨⟩⟩, fun h => ?_⟩
        rw [hok.mpr h.1.leaves] at hleaves
        cases hleaves
      | ok u =>
        refine hdigests.trans ⟨?_, ?_⟩
        · rintro ⟨hmatch, hsize, hgit⟩
          exact ⟨⟨hok.mp hleaves, hsize, hmatch⟩, hgit⟩
        · rintro ⟨href, hgit⟩
          exact ⟨href.digests, href.size, hgit⟩

/-- Without a chunk tree only the size and the digests decide. -/
theorem verifyChunks_of_no_tree (expected : Hashes) (expectedSize : ℕ) (what : Text)
    (chunks : List Bytes) :
    ∃ v, Fed D (new expected expectedSize none what) chunks.flatten v ∧
      (new expected expectedSize none what).verifyChunks D chunks = v.finishDigests D := by
  have hfeed : ∀ (chunks : List Bytes) (v : StreamingVerifier), v.leafCheck = none →
      ∃ v', v'.leafCheck = none ∧ Fed D v chunks.flatten v' ∧ v.feedAll D chunks = .ok v' := by
    intro chunks
    induction chunks with
    | nil => exact fun v hv => ⟨v, hv, .nil, rfl⟩
    | cons chunk chunks ih =>
      intro v hv
      have hone := feed_of_leafCheck_none (D := D) hv chunk
      obtain ⟨v', hv', hfed, hall⟩ := ih { v with dual := v.dual.update chunk } hv
      refine ⟨v', hv', (Fed.single hone).trans hfed, ?_⟩
      unfold feedAll
      rw [hone]
      exact hall
  obtain ⟨v, hv, hfed, hall⟩ := hfeed chunks (new expected expectedSize none what) rfl
  refine ⟨v, hfed, ?_⟩
  unfold verifyChunks finish
  rw [hall]
  dsimp only
  rw [hv]

/-- **The verifier against the reference.** For a tree with leaves of at least one
byte, any declared size and digests, and any cut of the stream into chunks:

* the verifier accepts exactly the streams the reference does, unless a git blob
  OID is declared without a size and the stream is right;
* a stream with a block that differs is refused at the first such block, and
  chunks whose complete blocks agree are taken in;
* with the tree that a file with the bytes of the stream has, the stream is
  accepted exactly if it is accepted without a tree. -/
theorem verifyChunks_reference (D : Digests) (tree : ChunkTree) (hpos : 0 < tree.leafSize)
    (expected : Hashes) (expectedSize : ℕ) (what : Text) (chunks : List Bytes) :
    (((∃ got, (new expected expectedSize (some tree) what).verifyChunks D chunks = .ok got) ↔
          Reference D tree expected expectedSize chunks.flatten) ↔
        ¬ (expected.hasGitBlobSha1 = true ∧ expectedSize = 0 ∧
          Reference D tree expected expectedSize chunks.flatten)) ∧
      (∀ i, FirstDiffers D tree chunks.flatten i →
        (new expected expectedSize (some tree) what).verifyChunks D chunks =
          .error (leafMismatch D what tree i (leafOf tree.leafSize i chunks.flatten))) ∧
      ((∃ v, (new expected expectedSize (some tree) what).feedAll D chunks = .ok v) ↔
        ∀ i, (i + 1) * tree.leafSize ≤ chunks.flatten.length →
          BlockAgrees D tree chunks.flatten i) ∧
      ∀ n, 0 < n → n ≤ MAX_LEAF_SIZE →
        ((∃ got, (new expected expectedSize (some (ChunkTree.fromFile D chunks.flatten n))
            what).verifyChunks D chunks = .ok got) ↔
          ∃ got, (new expected expectedSize none what).verifyChunks D chunks = .ok got) := by
  obtain ⟨hfed, hfirst, hok⟩ := verifyChunks_spec (D := D) hpos expected expectedSize what chunks
  refine ⟨?_, hfirst, hfed, fun n hn hmax => ?_⟩
  · rw [hok]
    constructor
    · rintro hiff ⟨hgit, h0, href⟩
      exact (hiff.mpr href).2 hgit h0
    · exact fun hnot => ⟨fun h => h.1, fun href => ⟨href, fun hgit h0 => hnot ⟨hgit, h0, href⟩⟩⟩
  · rw [ChunkTree.fromFile_eq D hn hmax]
    obtain ⟨-, -, hwith⟩ := @verifyChunks_spec D ⟨n, (blocks n chunks.flatten).map (leafHash D)⟩
      hn expected expectedSize what chunks
    obtain ⟨v, hv, heq⟩ := verifyChunks_of_no_tree (D := D) expected expectedSize what chunks
    rw [hwith, heq, finishDigests_ok_iff hv.consumed]
    exact ⟨fun ⟨href, hgit⟩ => ⟨href.digests, href.size, hgit⟩,
      fun ⟨hmatch, hsize, hgit⟩ => ⟨⟨rfl, hsize, hmatch⟩, hgit⟩⟩

end StreamingVerifier

end

/-- The git blob OID of `abc`, and no other digest, which is how a file that is only known
to git is declared by a repository. -/
def abcOid : Hashes := ⟨[], [], gitBlobOid sampleDigests abc⟩

/-- A tree with one leaf, the whole of `abc`, so that verifying by leaves and verifying as a
whole come to the same comparison. -/
def abcTree : ChunkTree := ⟨3, [leafHash sampleDigests abc]⟩

/-- **A right stream with a declared git blob OID is refused where no size is
declared.** -/
theorem oid_without_size_refused :
    StreamingVerifier.Reference sampleDigests abcTree abcOid 0 abc ∧
      (StreamingVerifier.new abcOid 0 (some abcTree) []).verifyChunks sampleDigests [abc] =
        .error (.hashMismatch " (git_blob_sha1)".toList abcOid.gitBlobSha1 []) := by
  refine ⟨⟨by decide +kernel, nofun, ⟨nofun, nofun, fun _ => by decide +kernel⟩⟩, ?_⟩
  decide +kernel

/-- With the size declared it is accepted, in two chunks as well as in one. -/
theorem oid_with_size_accepted :
    ∃ got, (StreamingVerifier.new abcOid 3 (some abcTree) []).verifyChunks sampleDigests
      [[0x61], [0x62, 0x63]] = .ok got := by
  obtain ⟨hiff, -⟩ := StreamingVerifier.verifyChunks_reference sampleDigests abcTree
    (by decide) abcOid 3 [] [[0x61], [0x62, 0x63]]
  refine (hiff.mpr fun h => absurd h.2.1 (by decide)).mpr ⟨by decide +kernel, fun _ => by decide, ?_⟩
  exact ⟨nofun, nofun, fun _ => by decide +kernel⟩

end Atlas
