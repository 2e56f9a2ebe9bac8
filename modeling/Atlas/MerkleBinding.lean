import Atlas.Hash
import Atlas.LevelTree

/-!
# What a Merkle root binds

A signed root stands for the leaves of an artifact. The leaf hashes are paired level by
level, and a hash that is left over at the end of a level is promoted to the next one
unpaired, so that a leaf and a node may meet at one level. `merkleRoot_binds` says that
nothing is confused by that: two lists of blocks with one root are the same list.
-/

namespace Atlas

/-- A value of the hash function, as every node of a tree but a leaf's content is. -/
def Digests.IsDigest (D : Digests) (x : Bytes) : Prop := ∃ data, D.blake3 data = x

/-- **Hashing of leaves and nodes without collisions**, the latter on digests only, since
nothing else is ever joined. -/
structure Digests.TreeInjective (D : Digests) : Prop where
  leaf : Function.Injective (leafHash D)
  node : ∀ l r l' r', D.IsDigest l → D.IsDigest r → D.IsDigest l' → D.IsDigest r' →
    nodeHash D l r = nodeHash D l' r' → l = l' ∧ r = r'
  /-- No leaf hashes to what a node hashes to. -/
  disjoint : ∀ data l r, D.IsDigest l → D.IsDigest r → leafHash D data ≠ nodeHash D l r

theorem Digests.TreeInjective.binding {D : Digests} (h : D.TreeInjective) :
    LevelTree.Binding D.IsDigest (leafHash D) (nodeHash D) where
  leaf_kind := fun _ => ⟨_, rfl⟩
  node_kind := fun _ _ => ⟨_, rfl⟩
  leaf_inj := fun _ _ heq => h.leaf heq
  node_inj := h.node
  apart := h.disjoint

variable {D : Digests}

/-- A level of hashes is the worth of a level of trees. -/
theorem nextLevel_map_eval : ∀ level : List (LevelTree Bytes),
    nextLevel D (level.map (LevelTree.eval (leafHash D) (nodeHash D))) =
      (LevelTree.pairUp level).map (LevelTree.eval (leafHash D) (nodeHash D))
  | l :: r :: rest => by
    rw [List.map_cons, List.map_cons, nextLevel, nextLevel_map_eval rest, LevelTree.pairUp,
      List.map_cons]
    rfl
  | [_] => rfl
  | [] => rfl

/-- **The Merkle root is the worth of the tree of the level.** -/
theorem merkleRoot_map_eval {level : List (LevelTree Bytes)} {root : LevelTree Bytes}
    (h : LevelTree.build level = some root) :
    merkleRoot D (level.map (LevelTree.eval (leafHash D) (nodeHash D))) =
      root.eval (leafHash D) (nodeHash D) := by
  induction level using LevelTree.build.induct with
  | case1 =>
    rw [LevelTree.build] at h
    cases h
  | case2 lone =>
    rw [LevelTree.build] at h
    cases h
    rw [List.map_singleton, merkleRoot]
  | case3 l r rest ih =>
    rw [LevelTree.build] at h
    have hnext := nextLevel_map_eval (D := D) (l :: r :: rest)
    rw [← ih h, ← hnext, List.map_cons, List.map_cons, merkleRoot]

/-- The tree over a list of blocks. -/
theorem exists_blockTree {blocks : List Bytes} (h : blocks ≠ []) :
    ∃ root : LevelTree Bytes, root.flatten = blocks ∧
      merkleRoot D (blocks.map (leafHash D)) = root.eval (leafHash D) (nodeHash D) := by
  have hne : blocks.map LevelTree.leaf ≠ [] := fun hnil => h (List.map_eq_nil_iff.mp hnil)
  obtain ⟨root, hroot⟩ := Option.isSome_iff_exists.mp (LevelTree.build_isSome hne)
  refine ⟨root, ?_, ?_⟩
  · rw [LevelTree.build_flatten hroot, List.flatMap_map]
    exact List.flatMap_singleton' blocks
  · rw [← merkleRoot_map_eval hroot, List.map_map]
    rfl

/-- **The Merkle root binds the whole list of blocks**, its length and shape included. -/
theorem merkleRoot_binds (hD : D.TreeInjective) {blocks blocks' : List Bytes}
    (hne : blocks ≠ []) (hne' : blocks' ≠ [])
    (hroot : merkleRoot D (blocks.map (leafHash D)) =
      merkleRoot D (blocks'.map (leafHash D))) : blocks = blocks' := by
  obtain ⟨t, hflatten, ht⟩ := exists_blockTree (D := D) hne
  obtain ⟨t', hflatten', ht'⟩ := exists_blockTree (D := D) hne'
  have hsame : t = t' := hD.binding.eval_injective (ht.symm.trans (hroot.trans ht'))
  rw [← hflatten, hsame, hflatten']

/-! ## A hash function without collisions

To have an injective hash of pairs, it must be seen where the first one ends. -/

/-- Bytes, each after a one, and a zero at the end, so that the spelling of a list of bytes
is never a proper beginning of another's. -/
def spelled : Bytes → Bytes
  | [] => [0]
  | b :: rest => 1 :: b :: spelled rest

/-- What is spelled shows where it ends. -/
theorem spelled_append_inj {x y s t : Bytes} (h : spelled x ++ s = spelled y ++ t) :
    x = y ∧ s = t := by
  induction x generalizing y with
  | nil =>
    cases y with
    | nil => exact ⟨rfl, (List.cons.inj h).2⟩
    | cons b y => exact absurd (List.cons.inj h).1 (by decide)
  | cons a x ih =>
    cases y with
    | nil => exact absurd (List.cons.inj h).1 (by decide)
    | cons b y =>
      obtain ⟨hb, hrest⟩ := List.cons.inj (List.cons.inj h).2
      obtain ⟨rfl, rfl⟩ := ih hrest
      exact ⟨congrArg (· :: x) hb, rfl⟩

/-- The hashes of the leaves `abc` and nothing, and of the node above them. -/
def treeTable : List (Bytes × Bytes) :=
  let left := ofNumber 32 0xb14157d03cf324d8896c43f2c5e241223eab944698e40c01f8f4e028fd1751e4
  let right := ofNumber 32 0x2d3adedff11b61f14c886e35afa036736dcd87a74d27b5c1510225d0f592e213
  [(0x00 :: abc, left), ([0x00], right),
    (0x01 :: (left ++ right),
      ofNumber 32 0xda2445feabb9e04b2090a1898631e93a4e6553f3d084e448054ef81ae73eaf2d)]

/-- A hash function with these, and with 32 zeros and a spelling elsewhere. -/
def treeDigests : Digests where
  blake3 := fun data =>
    match treeTable.lookup data with
    | some digest => digest
    | none => List.replicate 32 0 ++ spelled data
  sha256 := sampleDigests.sha256
  sha1 := sampleDigests.sha1

/-- A digest is in the table, or it is a spelling. -/
theorem treeDigests_cases (data : Bytes) :
    (data, treeDigests.blake3 data) ∈ treeTable ∨
      treeDigests.blake3 data = List.replicate 32 0 ++ spelled data := by
  show (data, match treeTable.lookup data with | some digest => digest | none => _) ∈ _ ∨ _
  unfold treeDigests
  dsimp only
  cases hlookup : treeTable.lookup data with
  | none => exact Or.inr rfl
  | some digest =>
    obtain ⟨l₁, l₂, htable, -⟩ := List.lookup_eq_some_iff.mp hlookup
    rw [htable]
    exact Or.inl (List.mem_append_right _ List.mem_cons_self)

/-- **Its digests show what they are of and where they end.** -/
theorem treeDigests_append_inj {x y s t : Bytes}
    (h : treeDigests.blake3 x ++ s = treeDigests.blake3 y ++ t) : x = y ∧ s = t := by
  have hlength : ∀ entry ∈ treeTable, entry.2.length = 32 ∧ entry.2 ≠ List.replicate 32 0 := by
    decide +kernel
  have hnodup : (treeTable.map Prod.snd).Nodup := by decide +kernel
  have hapart {data digest rest s t : Bytes} (hmem : (data, digest) ∈ treeTable) :
      digest ++ s ≠ List.replicate 32 0 ++ rest ++ t := by
    intro heq
    rw [List.append_assoc] at heq
    have hlen := (hlength _ hmem).1
    refine (hlength _ hmem).2 (List.append_inj_left heq ?_)
    rw [List.length_replicate]
    exact hlen
  obtain hx | hx := treeDigests_cases x
  · obtain hy | hy := treeDigests_cases y
    · obtain ⟨hsame, hrest⟩ := List.append_inj h
        ((hlength _ hx).1.trans (hlength _ hy).1.symm)
      exact ⟨congrArg Prod.fst (List.inj_on_of_nodup_map hnodup hx hy hsame), hrest⟩
    · rw [hy] at h
      exact absurd h (hapart hx)
  · obtain hy | hy := treeDigests_cases y
    · rw [hx] at h
      exact absurd h.symm (hapart hy)
    · rw [hx, hy, List.append_assoc, List.append_assoc] at h
      exact spelled_append_inj (List.append_cancel_left h)

theorem treeDigests_treeInjective : treeDigests.TreeInjective := by
  have hinjective {x y : Bytes} (h : treeDigests.blake3 x = treeDigests.blake3 y) : x = y :=
    (treeDigests_append_inj (congrArg (· ++ []) h)).1
  refine ⟨fun x y h => (List.cons.inj (hinjective h)).2, ?_, fun data l r _ _ h => ?_⟩
  · rintro _ r _ r' ⟨x, rfl⟩ - ⟨y, rfl⟩ - h
    obtain ⟨hxy, hrest⟩ := treeDigests_append_inj (List.cons.inj (hinjective h)).2
    exact ⟨congrArg _ hxy, hrest⟩
  · exact absurd (List.cons.inj (hinjective h)).1 (by decide)

/-- The root over `abc` and nothing is of no other list. -/
theorem merkleRoot_binds_abc :
    ([0x61, 0x62, 0x63] : Bytes) :: [[]] = [abc, []] :=
  merkleRoot_binds treeDigests_treeInjective (List.cons_ne_nil _ _) (List.cons_ne_nil _ _)
    (by decide +kernel)

end Atlas
