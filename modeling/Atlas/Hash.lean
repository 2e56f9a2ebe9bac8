import Mathlib.Data.List.Nodup
import Atlas.Error

/-!
# Digests and chunk trees

The three hash functions are parameters (`Digests`): fixed functions of the
bytes, about which nothing is assumed here. What a manifest declares about a
file is a `Hashes`, three texts of which an empty one declares nothing; what
a file *is* declared correctly by is `Hashes.Match`, and the comparison the
code makes is shown to decide it (`mismatchAgainst_eq_none_iff`).

A streaming hasher is modelled by the bytes it has consumed. That makes the
two facts about streaming that everything else uses plain: feeding in pieces
is feeding the whole (`DualHasher.update_append`), and the git hasher, whose
header names a length in advance, has hashed the right thing exactly when
that length turns out right (`DualHasher.finalize_git`).
-/

namespace Atlas

open Text

/-- The hash functions, as functions of the bytes; a theorem that needs one of them
injective says so. -/
structure Digests where
  blake3 : Bytes → Bytes
  sha256 : Bytes → Bytes
  sha1 : Bytes → Bytes

/-- Default Merkle leaf size (1 MiB), for files whose manifest asks for no other. -/
def DEFAULT_LEAF_SIZE : ℕ := 1 <<< 20

/-- Upper bound on a manifest-declared chunk leaf size (256 MiB); a tree that declares
larger leaves is refused before any of them is read. -/
def MAX_LEAF_SIZE : ℕ := 256 * 1024 * 1024

/-- The size of the buffer files are read through, one mebibyte, which bounds how much of a
file is held in memory while it is hashed. -/
def READ_BUFFER : ℕ := 1 <<< 20

/-- A set of content digests in hex; an empty text is an absent digest. -/
structure Hashes where
  /-- BLAKE3 hash of the whole artifact (64 characters). -/
  blake3 : Text
  /-- SHA-256 hash of the whole artifact (64 characters). -/
  sha256 : Text
  /-- Git blob OID: the SHA-1 of `blob <len>\0` and the bytes (40 characters). -/
  gitBlobSha1 : Text
  deriving DecidableEq, Repr

/-- What precedes the bytes in what the git blob OID hashes: the word `blob`, the length in
decimal digits and a NUL byte. -/
def gitHeader (len : ℕ) : Bytes :=
  ("blob ".toList ++ (toString len).toList).map (fun c => UInt8.ofNat c.toNat) ++ [0]

/-- The git blob OID of a byte string: the SHA-1 of git's header, with the length in it, and
of the bytes. -/
def gitBlobOid (D : Digests) (data : Bytes) : Text :=
  hexEncode (D.sha1 (gitHeader data.length ++ data))

namespace Hashes

/-- Whether a BLAKE3 is declared; an empty text says that it is not known. -/
def hasBlake3 (h : Hashes) : Bool := !h.blake3.isEmpty

/-- Whether a SHA-256 is declared, which an empty text is not. -/
def hasSha256 (h : Hashes) : Bool := !h.sha256.isEmpty

/-- Whether a git object id is declared, which an empty text is not. -/
def hasGitBlobSha1 (h : Hashes) : Bool := !h.gitBlobSha1.isEmpty

/-- Compare the present digests in `self` against freshly computed ones,
returning the first `(label, expected, actual)` that diverged. -/
def mismatchAgainst (self computed : Hashes) : Option (Text × Text × Text) :=
  if self.hasBlake3 && !eqIgnoreAsciiCase self.blake3 computed.blake3 then
    some ("blake3".toList, self.blake3, computed.blake3)
  else if self.hasSha256 && !eqIgnoreAsciiCase self.sha256 computed.sha256 then
    some ("sha256".toList, self.sha256, computed.sha256)
  else if self.hasGitBlobSha1 &&
      !eqIgnoreAsciiCase self.gitBlobSha1 computed.gitBlobSha1 then
    some ("git_blob_sha1".toList, self.gitBlobSha1, computed.gitBlobSha1)
  else none

/-- **The byte string has every digest that is declared.** Digests are hex
numbers: letter case does not matter. -/
structure Match (D : Digests) (h : Hashes) (b : Bytes) : Prop where
  blake3 : h.hasBlake3 → eqIgnoreAsciiCase h.blake3 (hexEncode (D.blake3 b))
  sha256 : h.hasSha256 → eqIgnoreAsciiCase h.sha256 (hexEncode (D.sha256 b))
  gitBlobSha1 : h.hasGitBlobSha1 → eqIgnoreAsciiCase h.gitBlobSha1 (gitBlobOid D b)

/-- The comparison finds no mismatch exactly when every declared digest agrees. -/
theorem mismatchAgainst_eq_none_iff {h c : Hashes} :
    h.mismatchAgainst c = none ↔
      (h.hasBlake3 → eqIgnoreAsciiCase h.blake3 c.blake3) ∧
      (h.hasSha256 → eqIgnoreAsciiCase h.sha256 c.sha256) ∧
      (h.hasGitBlobSha1 → eqIgnoreAsciiCase h.gitBlobSha1 c.gitBlobSha1) := by
  unfold mismatchAgainst
  cases h.hasBlake3 <;> cases h.hasSha256 <;> cases h.hasGitBlobSha1 <;>
    cases eqIgnoreAsciiCase h.blake3 c.blake3 <;>
    cases eqIgnoreAsciiCase h.sha256 c.sha256 <;>
    cases eqIgnoreAsciiCase h.gitBlobSha1 c.gitBlobSha1 <;> simp

/-- An absent digest equals no present one. -/
theorem not_eqIgnoreAsciiCase_nil {h : Hashes} (hg : h.hasGitBlobSha1) :
    eqIgnoreAsciiCase h.gitBlobSha1 [] = false := by
  rw [Bool.eq_false_iff, ne_eq, eqIgnoreAsciiCase_iff]
  intro he
  have hnil : h.gitBlobSha1 = [] := toAsciiLowercase_eq_nil.mp he
  rw [hasGitBlobSha1, hnil] at hg
  exact absurd hg (by decide)

end Hashes

/-! ## Streaming -/

/-- Streaming hasher producing BLAKE3 and SHA-256, plus the git blob OID when
a git-blob length is supplied up front. Each field is what the hasher of that
name has consumed. -/
structure DualHasher where
  blake3 : Bytes
  sha256 : Bytes
  /-- Present only when built with `withGitBlobLen`. -/
  git : Option Bytes
  len : ℕ
  deriving DecidableEq, Repr

namespace DualHasher

/-- Hashers that have seen nothing; the one for git is not there until it is asked for. -/
def new : DualHasher := ⟨[], [], none, 0⟩

/-- Build a hasher that *also* computes the git blob OID. `contentLen` must be
the whole artifact's byte length. -/
def withGitBlobLen (contentLen : ℕ) : DualHasher :=
  ⟨[], [], some (gitHeader contentLen), 0⟩

/-- Every hasher takes the next bytes, and the length grows with them. -/
def update (h : DualHasher) (data : Bytes) : DualHasher :=
  ⟨h.blake3 ++ data, h.sha256 ++ data, h.git.map (· ++ data), h.len + data.length⟩

/-- The digests of what was seen, in lower-case hexadecimal digits; the git blob OID is the
empty text when the hasher was not told the size beforehand. -/
def finalize (D : Digests) (h : DualHasher) : Hashes :=
  ⟨hexEncode (D.blake3 h.blake3), hexEncode (D.sha256 h.sha256),
    (h.git.map fun g => hexEncode (D.sha1 g)).getD []⟩

@[simp] theorem update_nil (h : DualHasher) : h.update [] = h := by
  rcases h with ⟨b, s, _ | g, n⟩ <;> simp [update]

/-- **Feeding in pieces is feeding the whole.** -/
theorem update_append (h : DualHasher) (a b : Bytes) :
    h.update (a ++ b) = (h.update a).update b := by
  rcases h with ⟨_, _, _ | g, n⟩ <;>
    simp [update, List.append_assoc, Nat.add_assoc]

@[simp] theorem len_update (h : DualHasher) (a : Bytes) :
    (h.update a).len = h.len + a.length := rfl

/-- A hasher with a git header has hashed the git blob OID of what it
consumed exactly when the length in the header is the length consumed. -/
theorem finalize_git (D : Digests) {n : ℕ} {b : Bytes} (h : b.length = n) :
    (((withGitBlobLen n).update b).finalize D).gitBlobSha1 = gitBlobOid D b := by
  subst h
  rfl

end DualHasher

/-- Hash a byte slice, returning dual digests, both in hexadecimal. -/
def hashBytes (D : Digests) (data : Bytes) : Hashes :=
  (DualHasher.new.update data).finalize D

/-- Hash an entire file from disk, returning dual digests and the byte length. -/
def hashFile (D : Digests) (file : Bytes) : Hashes × ℕ :=
  let hasher := DualHasher.new.update file
  (hasher.finalize D, hasher.len)

/-! ## Chunk trees -/

/-- BLAKE3 hash of a single leaf's bytes (domain-separated to prevent
second-preimage collisions with interior nodes). -/
def leafHash (D : Digests) (data : Bytes) : Bytes := D.blake3 (0x00 :: data)

/-- The digest of an inner node: a one, so that no leaf is taken for a node, and the digests
of its two children. -/
def nodeHash (D : Digests) (left right : Bytes) : Bytes :=
  D.blake3 (0x01 :: (left ++ right))

/-- One level of the tree above a level: neighbours are hashed together, a
lone node at the end is promoted unchanged. -/
def nextLevel (D : Digests) : List Bytes → List Bytes
  | left :: right :: rest => nodeHash D left right :: nextLevel D rest
  | [lone] => [lone]
  | [] => []

theorem length_nextLevel (D : Digests) :
    ∀ level : List Bytes, (nextLevel D level).length = (level.length + 1) / 2
  | _ :: _ :: rest => by
    rw [nextLevel, List.length_cons, length_nextLevel D rest, List.length_cons,
      List.length_cons]
    omega
  | [_] => by rw [nextLevel, List.length_singleton]
  | [] => by rw [nextLevel, List.length_nil]

/-- The Merkle root over an ordered list of leaf hashes, level by level: the root of no
leaves is the leaf hash of nothing, and a single leaf is its own root. -/
def merkleRoot (D : Digests) (leaves : List Bytes) : Bytes :=
  match leaves with
  | [] => leafHash D []
  | [root] => root
  | left :: right :: rest => merkleRoot D (nextLevel D (left :: right :: rest))
termination_by leaves.length
decreasing_by
  rw [length_nextLevel]
  simp only [List.length_cons]
  omega

/-- An explicit Merkle tree over fixed-size leaves of an artifact: the size of the leaves
and the hash of each of them, in the order of the file. -/
structure ChunkTree where
  leafSize : ℕ
  /-- Per-leaf BLAKE3 hashes, in order. -/
  leaves : List Bytes
  deriving DecidableEq, Repr

namespace ChunkTree

/-- The leaf hashes of a file: one per full leaf, and one for what is left. -/
def leavesOf (D : Digests) (leafSize : ℕ) (hpos : 0 < leafSize) (file : Bytes) :
    List Bytes :=
  if file.take leafSize = [] then []
  else if (file.take leafSize).length < leafSize then [leafHash D (file.take leafSize)]
  else leafHash D (file.take leafSize) ::
    leavesOf D leafSize hpos (file.drop leafSize)
termination_by file.length
decreasing_by
  rename_i hfilled _
  have hne : file ≠ [] := fun h => hfilled (by rw [h, List.take_nil])
  have := List.length_pos_iff.mpr hne
  rw [List.length_drop]
  omega

/-- Build a chunk tree from a file. The leaf size is clamped at the
allocation site. -/
def fromFile (D : Digests) (file : Bytes) (leafSize : ℕ) : ChunkTree :=
  let clamped := max 1 (min leafSize MAX_LEAF_SIZE)
  ⟨clamped, leavesOf D clamped (Nat.lt_of_lt_of_le Nat.one_pos (Nat.le_max_left _ _)) file⟩

/-- The Merkle root over the leaves of the tree, which is what a manifest declares of the
tree and what the leaves are compared with. -/
def root (D : Digests) (tree : ChunkTree) : Bytes := merkleRoot D tree.leaves

/-- The root as it is written in a manifest, in lower-case hexadecimal digits, as the other
digests are. -/
def rootHex (D : Digests) (tree : ChunkTree) : Text := hexEncode (tree.root D)

/-- How many leaves the tree has, of which the last may be shorter than the others. -/
def numLeaves (tree : ChunkTree) : ℕ := tree.leaves.length

/-- Verify a single leaf's bytes against the recorded hash for that index. -/
def verifyLeaf (D : Digests) (tree : ChunkTree) (index : ℕ) (data : Bytes) : Bool :=
  match tree.leaves[index]? with
  | some expected => leafHash D data == expected
  | none => false

/-- **The leaf hashes of a file are the hashes of its leaves.** Leaf `i` is
there as long as the file reaches it. -/
theorem leavesOf_getElem? (D : Digests) {n : ℕ} (hpos : 0 < n) (file : Bytes)
    (i : ℕ) : (leavesOf D n hpos file)[i]? =
      if i * n < file.length then some (leafHash D ((file.drop (i * n)).take n))
      else none := by
  induction i generalizing file with
  | zero =>
    rw [leavesOf, Nat.zero_mul, List.drop_zero]
    by_cases hfile : file = []
    · rw [if_pos (by rw [hfile, List.take_nil]), hfile]
      rfl
    · have hlen := List.length_pos_iff.mpr hfile
      have hne : file.take n ≠ [] := by
        rw [ne_eq, List.take_eq_nil_iff]
        rintro (h | h)
        · omega
        · exact hfile h
      rw [if_neg hne, if_pos hlen]
      split <;> rfl
  | succ i ih =>
    rw [leavesOf]
    by_cases hne : file.take n = []
    · rw [if_pos hne]
      have hfile : file.length = 0 := by
        have := congrArg List.length hne
        rw [List.length_take, List.length_nil] at this
        omega
      rw [if_neg (by omega)]
      rfl
    · rw [if_neg hne, List.length_take]
      by_cases hshort : min n file.length < n
      · have : n ≤ (i + 1) * n := Nat.le_mul_of_pos_left n (Nat.succ_pos i)
        rw [if_pos hshort, if_neg (by omega)]
        rfl
      · rw [if_neg hshort, List.getElem?_cons_succ, ih, List.length_drop,
          List.drop_drop, Nat.succ_mul, Nat.add_comm n]
        have hiff : i * n < file.length - n ↔ i * n + n < file.length := by omega
        simp only [hiff]

/-- A leaf is verified exactly when the file reaches it and the bytes have
its hash. -/
theorem verifyLeaf_leavesOf (D : Digests) {n : ℕ} (hpos : 0 < n)
    (file : Bytes) (i : ℕ) (data : Bytes) :
    verifyLeaf D ⟨n, leavesOf D n hpos file⟩ i data = true ↔
      i * n < file.length ∧ leafHash D data = leafHash D ((file.drop (i * n)).take n) := by
  unfold verifyLeaf
  rw [leavesOf_getElem?]
  by_cases h : i * n < file.length
  · rw [if_pos h]
    simp [h]
  · rw [if_neg h]
    simp [h]

end ChunkTree

/-! ## Hash functions given by a table

To run the model a hash function is needed on the inputs of the run only. One
given by a table of those, and by a longer output elsewhere, is injective when
the table is. -/

/-- A hash function with the outputs of a table, and 33 zero bytes before the
input where the table has none. -/
def tabulated (table : List (Bytes × Bytes)) (data : Bytes) : Bytes :=
  match table.lookup data with
  | some digest => digest
  | none => List.replicate 33 0 ++ data

theorem tabulated_injective {table : List (Bytes × Bytes)}
    (hlen : ∀ entry ∈ table, entry.2.length ≤ 32) (hnodup : (table.map Prod.snd).Nodup) :
    Function.Injective (tabulated table) := by
  have hmem : ∀ {data digest}, table.lookup data = some digest →
      (data, digest) ∈ table := by
    intro data digest h
    obtain ⟨l₁, l₂, rfl, -⟩ := List.lookup_eq_some_iff.mp h
    exact List.mem_append_right _ List.mem_cons_self
  have hshort : ∀ {data digest}, table.lookup data = some digest → ∀ rest : Bytes,
      digest ≠ List.replicate 33 0 ++ rest := by
    intro data digest h rest he
    have h32 : digest.length ≤ 32 := hlen _ (hmem h)
    rw [he, List.length_append, List.length_replicate] at h32
    omega
  intro x y hxy
  unfold tabulated at hxy
  cases hx : table.lookup x with
  | some digest =>
    cases hy : table.lookup y with
    | some digest' =>
      rw [hx, hy] at hxy
      have hsame : digest = digest' := hxy
      subst hsame
      exact congrArg Prod.fst (List.inj_on_of_nodup_map hnodup (hmem hx) (hmem hy) rfl)
    | none =>
      rw [hx, hy] at hxy
      exact absurd hxy (hshort hx y)
  | none =>
    cases hy : table.lookup y with
    | some digest =>
      rw [hx, hy] at hxy
      exact absurd hxy.symm (hshort hy x)
    | none =>
      rw [hx, hy] at hxy
      exact List.append_cancel_left hxy

/-- A digest of `len` bytes as the number it is, most significant byte first, so that closed
examples may write digests as hexadecimal literals. -/
def ofNumber (len n : ℕ) : Bytes :=
  (List.range len).map fun i => UInt8.ofNat (n >>> (8 * (len - 1 - i)))

/-- The three bytes `abc`, the content of the smallest examples. -/
def abc : Bytes := [0x61, 0x62, 0x63]

/-- The digests of `abc`, of the leaf it is, and of no bytes at all. -/
def sampleDigests : Digests where
  blake3 := tabulated [
    (abc, ofNumber 32 0x6437b3ac38465133ffb63b75273a8db548c558465d79db03fd359c6cd5bd9d85),
    (0x00 :: abc, ofNumber 32 0xb14157d03cf324d8896c43f2c5e241223eab944698e40c01f8f4e028fd1751e4),
    ([], ofNumber 32 0xaf1349b9f5f9a1a6a0404dea36dcc9499bcb25c9adc112b7cc9a93cae41f3262)]
  sha256 := tabulated [
    (abc, ofNumber 32 0xba7816bf8f01cfea414140de5dae2223b00361a396177a9cb410ff61f20015ad),
    ([], ofNumber 32 0xe3b0c44298fc1c149afbf4c8996fb92427ae41e4649b934ca495991b7852b855)]
  sha1 := tabulated [
    (gitHeader 3 ++ abc, ofNumber 20 0xf2ba8f84ab5c1bce84a7b441cb1959cfc7093b7f),
    (gitHeader 0, ofNumber 20 0xe69de29bb2d1d6434b8b29ae775ad8c2e48c5391)]

theorem sampleDigests_injective : Function.Injective sampleDigests.blake3 :=
  tabulated_injective (by decide +kernel) (by decide +kernel)

end Atlas
