import Atlas.CacheRuns
import Atlas.LeafReference

/-!
# Three ways to verify a file

A download verifies what it streams, `verifyFile` reads a file back, and
`importArtifactFile` checks a local file against an artifact. The first two know
a git blob OID's length from the declared size and from the file; the last
computes no git blob OID at all and compares the size even where none is
declared. They agree on everything else, and each reports the digests of the
bytes themselves (`verification_paths_agree_iff`).
-/

namespace Atlas

open Text Program StreamingVerifier

/-- Like `hashFile`, but also computes the git blob OID, from the same pass over the file,
which needs its length beforehand. -/
def hashFileWithGit (D : Digests) (file : Bytes) : Hashes × ℕ :=
  let hasher := (DualHasher.withGitBlobLen file.length).update file
  (hasher.finalize D, hasher.len)

/-- Verify an entire file on disk against expected digests and size; a declared size of 0 is
one that was not known beforehand. -/
def verifyFile (D : Digests) (file : Bytes) (expected : Hashes) (expectedSize : ℕ)
    (what : Text) : Except Error Hashes :=
  let (got, size) :=
    if expected.hasGitBlobSha1 then hashFileWithGit D file else hashFile D file
  -- an expected size of 0 means the size was unknown up front
  if expectedSize ≠ 0 ∧ size ≠ expectedSize then
    .error (.sizeMismatch what expectedSize size)
  else match expected.mismatchAgainst got with
    | some (label, exp, act) =>
      .error (.hashMismatch (what ++ " (".toList ++ label ++ ")".toList) exp act)
    | none => .ok got

/-! ## Reading a file back -/

/-- What `verifyFile` computes, whichever hashers it runs. -/
theorem verifyFile_hashes (D : Digests) (expected : Hashes) (file : Bytes) :
    ∃ got : Hashes, (if expected.hasGitBlobSha1 then hashFileWithGit D file
        else hashFile D file) = (got, file.length) ∧
      got.blake3 = hexEncode (D.blake3 file) ∧ got.sha256 = hexEncode (D.sha256 file) ∧
      (expected.hasGitBlobSha1 → got.gitBlobSha1 = gitBlobOid D file) := by
  have hlen : 0 + file.length = file.length := Nat.zero_add _
  by_cases hgit : expected.hasGitBlobSha1 = true
  · rw [if_pos hgit]
    exact ⟨_, congrArg (Prod.mk _) hlen, rfl, rfl, fun _ => rfl⟩
  · rw [if_neg hgit]
    exact ⟨_, congrArg (Prod.mk _) hlen, rfl, rfl, fun h => absurd h hgit⟩

/-- **Reading a file back accepts what an artifact describes**, and reports its digests. -/
theorem verifyFile_spec (D : Digests) (a : Artifact) (file : Bytes) (what : Text) :
    ((∃ got, verifyFile D file a.hashes a.sizeBytes what = .ok got) ↔ a.Describes D file) ∧
      ∀ got, verifyFile D file a.hashes a.sizeBytes what = .ok got →
        got.blake3 = hexEncode (D.blake3 file) ∧ got.sha256 = hexEncode (D.sha256 file) := by
  obtain ⟨got, hgot, hb, hs, hg⟩ := verifyFile_hashes D a.hashes file
  have hmatch : a.hashes.mismatchAgainst got = none ↔ a.hashes.Match D file := by
    rw [Hashes.mismatchAgainst_eq_none_iff, hb, hs]
    exact ⟨fun ⟨h1, h2, h3⟩ => ⟨h1, h2, fun hd => hg hd ▸ h3 hd⟩,
      fun h => ⟨h.blake3, h.sha256, fun hd => (hg hd).symm ▸ h.gitBlobSha1 hd⟩⟩
  unfold verifyFile
  rw [hgot]
  dsimp only
  by_cases hsize : a.sizeBytes ≠ 0 ∧ file.length ≠ a.sizeBytes
  · rw [if_pos hsize]
    exact ⟨⟨nofun, fun h => absurd (h.size hsize.1) hsize.2⟩, nofun⟩
  · rw [if_neg hsize]
    cases hmis : a.hashes.mismatchAgainst got with
    | some mismatch =>
      refine ⟨⟨nofun, fun h => ?_⟩, nofun⟩
      rw [hmatch.mpr h.digests] at hmis
      cases hmis
    | none =>
      refine ⟨⟨fun _ => ⟨hmatch.mp hmis, fun h0 => ?_⟩, fun _ => ⟨got, rfl⟩⟩, fun got' h => ?_⟩
      · by_contra hne
        exact hsize ⟨h0, hne⟩
      · cases h
        exact ⟨hb, hs⟩

/-! ## Streaming -/

/-- **Streaming accepts what an artifact describes**, if it declares a git blob OID
with a size only, and reports its digests. -/
theorem verifyChunks_describes (D : Digests) (a : Artifact) (what : Text)
    (chunks : List Bytes) :
    ((∃ got, (new a.hashes a.sizeBytes none what).verifyChunks D chunks = .ok got) ↔
        a.Describes D chunks.flatten ∧ (a.hashes.hasGitBlobSha1 → a.sizeBytes ≠ 0)) ∧
      ∀ got, (new a.hashes a.sizeBytes none what).verifyChunks D chunks = .ok got →
        got.blake3 = hexEncode (D.blake3 chunks.flatten) ∧
          got.sha256 = hexEncode (D.sha256 chunks.flatten) := by
  obtain ⟨v, hfed, heq⟩ := verifyChunks_of_no_tree (D := D) a.hashes a.sizeBytes what chunks
  rw [heq]
  refine ⟨(finishDigests_ok_iff hfed.consumed).trans ?_, fun got hok => ?_⟩
  · exact ⟨fun ⟨hmatch, hsize, hgit⟩ => ⟨⟨hmatch, hsize⟩, hgit⟩,
      fun ⟨h, hgit⟩ => ⟨h.digests, h.size, hgit⟩⟩
  · obtain ⟨-, -, hb, hs, -⟩ := finishDigests_match hfed.consumed hok
    exact ⟨hb, hs⟩

/-! ## Importing -/

/-- An error that refuses a size or a digest, and not the file system or the network. -/
def Error.refusesContent : Error → Bool
  | .sizeMismatch .. => true
  | .hashMismatch .. => true
  | _ => false

/-- A program passed its size and digest checks, however it ended; one that crashed has not
refused anything either. -/
def PassesChecks {α : Type} : Exit Error α → Prop
  | .err e => e.refusesContent = false
  | _ => True

theorem refusesContent_of_blobPath {blake3 : Text} {e : Error}
    (h : Cas.blobPath blake3 = .error e) : e.refusesContent = false := by
  unfold Cas.blobPath at h
  split at h
  · cases h
    rfl
  · cases h

/-- What storing a file comes to: metadata with its digests, or an error that is
not about its content. -/
theorem importFile_outcome (file : Bytes) (hashes : Hashes) (size : ℕ) (d : Disk) :
    PassesChecks (Cas.importFile file hashes size d).1 ∧
      ∀ m, (Cas.importFile file hashes size d).1 = .ok m →
        m.blake3 = hashes.blake3 ∧ m.sha256 = hashes.sha256 := by
  unfold Cas.importFile
  rw [bind_apply, get_apply, andThen_ok]
  unfold Cas.hasBlob
  cases hpath : Cas.blobPath hashes.blake3 with
  | error e =>
    rw [if_neg Bool.false_ne_true]
    unfold Cas.commitBlob
    rw [hpath]
    exact ⟨refusesContent_of_blobPath hpath, nofun⟩
  | ok key =>
    dsimp only
    by_cases hblob : (d.cache.blobs key).isSome = true
    · rw [if_pos hblob, hpath]
      exact ⟨trivial, fun m hm => by cases hm; exact ⟨rfl, rfl⟩⟩
    · have hfree : d.cache.blobs key = none := Option.not_isSome_iff_eq_none.mp hblob
      rw [if_neg hblob]
      unfold Cas.commitBlob
      rw [hpath, bind_apply, modify_apply, andThen_ok, bind_apply, ofExcept_ok, andThen_ok,
        bind_apply, get_apply, andThen_ok]
      dsimp only
      rw [show (d.setTemp _ _).cache.blobs key = none from hfree]
      dsimp only
      rw [Disk.setTemp_temps_self]
      exact ⟨trivial, fun m hm => by cases hm; exact ⟨rfl, rfl⟩⟩

/-- **Importing a file accepts what has the declared size, zero or not, and the
declared digests, where no git blob OID is declared**, and reports its digests. -/
theorem importArtifactFile_spec (D : Digests) {d : Disk} {manifestId artifactPath : Text}
    {m : Manifest} {artifact : Artifact} (hm : requireManifest manifestId d = .ok m)
    (ha : m.artifact artifactPath = some artifact) (file : Bytes) :
    (PassesChecks (importArtifactFile D manifestId artifactPath file d).1 ↔
        file.length = artifact.sizeBytes ∧ artifact.hashes.Match D file ∧
          artifact.hashes.hasGitBlobSha1 = false) ∧
      ∀ got, (importArtifactFile D manifestId artifactPath file d).1 = .ok got →
        got.blake3 = hexEncode (D.blake3 file) ∧ got.sha256 = hexEncode (D.sha256 file) := by
  have hlen : (hashFile D file).2 = file.length := Nat.zero_add _
  -- an import computes no git object id, so an artifact that declares one never passes
  have hmatch : artifact.hashes.mismatchAgainst (hashFile D file).1 = none ↔
      artifact.hashes.Match D file ∧ artifact.hashes.hasGitBlobSha1 = false := by
    rw [Hashes.mismatchAgainst_eq_none_iff]
    constructor
    · rintro ⟨hb, hs, hg⟩
      have hnone : artifact.hashes.hasGitBlobSha1 = false := by
        refine Bool.eq_false_iff.mpr fun hd => ?_
        have hnil := Hashes.not_eqIgnoreAsciiCase_nil hd
        exact absurd (hnil.symm.trans (hg hd)) Bool.false_ne_true
      exact ⟨⟨hb, hs, fun hd => absurd (hnone.symm.trans hd) Bool.false_ne_true⟩, hnone⟩
    · rintro ⟨h, hnone⟩
      exact ⟨h.blake3, h.sha256, fun hd => absurd (hnone.symm.trans hd) Bool.false_ne_true⟩
  unfold importArtifactFile
  rw [bind_apply, get_apply, andThen_ok, bind_apply, hm, ofExcept_ok, andThen_ok]
  dsimp only
  rw [ha]
  dsimp only
  by_cases hsize : (hashFile D file).2 ≠ artifact.sizeBytes
  · rw [if_pos hsize]
    rw [hlen] at hsize
    exact ⟨⟨nofun, fun h => absurd h.1 hsize⟩, nofun⟩
  · rw [if_neg hsize]
    rw [hlen] at hsize
    cases hmis : artifact.hashes.mismatchAgainst (hashFile D file).1 with
    | some mismatch =>
      refine ⟨⟨nofun, fun h => ?_⟩, nofun⟩
      rw [hmatch.mpr h.2] at hmis
      cases hmis
    | none =>
      dsimp only
      obtain ⟨hpasses, hreports⟩ := importFile_outcome file (hashFile D file).1
        (hashFile D file).2 d
      rw [bind_apply]
      generalize Cas.importFile file (hashFile D file).1 (hashFile D file).2 d = r
        at hpasses hreports ⊢
      rcases r with ⟨u | e | _, d'⟩
      · refine ⟨⟨fun _ => ⟨not_not.mp hsize, hmatch.mp hmis⟩, fun _ => trivial⟩, fun got hgot => ?_⟩
        cases hgot
        exact hreports _ rfl
      · exact ⟨⟨fun _ => ⟨not_not.mp hsize, hmatch.mp hmis⟩, fun _ => hpasses⟩, nofun⟩
      · exact ⟨⟨fun _ => ⟨not_not.mp hsize, hmatch.mp hmis⟩, fun _ => trivial⟩, nofun⟩

/-! ## The three of them -/

/-- **The verification paths agree exactly if an artifact that describes the file
declares no git blob OID and declares its size** (or the file is empty), and what
they report of a file they accept is always the same. -/
theorem verification_paths_agree_iff (D : Digests) (what : Text) (chunks : List Bytes)
    {d : Disk} {manifestId artifactPath : Text} {m : Manifest} {artifact : Artifact}
    (hm : requireManifest manifestId d = .ok m) (ha : m.artifact artifactPath = some artifact) :
    let streamed := (new artifact.hashes artifact.sizeBytes none what).verifyChunks D chunks
    let read := verifyFile D chunks.flatten artifact.hashes artifact.sizeBytes what
    let imported := (importArtifactFile D manifestId artifactPath chunks.flatten d).1
    (((∃ got, streamed = .ok got) ↔ ∃ got, read = .ok got) ∧
        ((∃ got, read = .ok got) ↔ PassesChecks imported) ↔
      (artifact.Describes D chunks.flatten →
        artifact.hashes.hasGitBlobSha1 = false ∧
          (artifact.sizeBytes = 0 → chunks.flatten = []))) ∧
    (∀ got got', streamed = .ok got → read = .ok got' →
      got.blake3 = got'.blake3 ∧ got.sha256 = got'.sha256) ∧
    ∀ got stored, read = .ok got → imported = .ok stored →
      got.blake3 = stored.blake3 ∧ got.sha256 = stored.sha256 := by
  obtain ⟨hstream, hstreamed⟩ := verifyChunks_describes D artifact what chunks
  obtain ⟨hread, hreads⟩ := verifyFile_spec D artifact chunks.flatten what
  obtain ⟨himport, himports⟩ := importArtifactFile_spec D hm ha chunks.flatten
  dsimp only
  refine ⟨?_, fun got got' h h' => ?_, fun got m h h' => ?_⟩
  · rw [hstream, hread, himport]
    constructor
    · rintro ⟨-, hiff⟩ hdeclared
      obtain ⟨hlen, -, hgit⟩ := hiff.mp hdeclared
      exact ⟨hgit, fun h0 => List.length_eq_zero_iff.mp (hlen.trans h0)⟩
    · intro hcond
      refine ⟨⟨And.left, fun h => ⟨h, fun hd => ?_⟩⟩, ⟨fun h => ⟨?_, h.digests, (hcond h).1⟩,
        fun ⟨hlen, hmatch, _⟩ => ⟨hmatch, fun _ => hlen⟩⟩⟩
      · exact absurd ((hcond h).1.symm.trans hd) Bool.false_ne_true
      · by_cases h0 : artifact.sizeBytes = 0
        · rw [(hcond h).2 h0, h0]
          rfl
        · exact h.size h0
  · exact ⟨(hstreamed got h).1.trans (hreads got' h').1.symm,
      (hstreamed got h).2.trans (hreads got' h').2.symm⟩
  · exact ⟨(hreads got h).1.trans (himports m h').1.symm,
      (hreads got h).2.trans (himports m h').2.symm⟩

/-- The artifact `abc.bin` with other digests and another size, so that examples vary the
digests and the size only. -/
def abcDeclaring (hashes : Hashes) (sizeBytes : ℕ) : Artifact where
  path := "abc.bin".toList
  sizeBytes := sizeBytes
  hashes := hashes
  chunking := none
  sources := []

/-- A store that knows it, from a manifest of that artifact alone. -/
def knowing (artifact : Artifact) : Disk :=
  { Disk.empty with manifests := [{ abcManifest with artifacts := [artifact] }] }

/-- **A file with the declared git blob OID is verified by reading it and streaming
it, and refused as an import.** -/
theorem oid_import_refused :
    (verifyFile sampleDigests abc abcOid 3 []).isOk = true ∧
      ((new abcOid 3 none []).verifyChunks sampleDigests [abc]).isOk = true ∧
      (importArtifactFile sampleDigests abcManifest.manifestId "abc.bin".toList abc
        (knowing (abcDeclaring abcOid 3))).1 =
          .err (.hashMismatch "local import of abc.bin (git_blob_sha1)".toList
            abcOid.gitBlobSha1 []) := by
  refine ⟨by decide +kernel, by decide +kernel, by decide +kernel⟩

/-- With the BLAKE3 and the size declared the three agree on `abc`. -/
theorem abc_paths_agree :
    PassesChecks (importArtifactFile sampleDigests abcManifest.manifestId "abc.bin".toList abc
        (knowing (abcDeclaring ⟨(hashBytes sampleDigests abc).blake3, [], []⟩ 3))).1 ∧
      ∃ got, (new ⟨(hashBytes sampleDigests abc).blake3, [], []⟩ 3 none []).verifyChunks
        sampleDigests [[0x61], [0x62, 0x63]] = .ok got := by
  have hm : requireManifest abcManifest.manifestId
      (knowing (abcDeclaring ⟨(hashBytes sampleDigests abc).blake3, [], []⟩ 3)) = .ok { abcManifest
        with artifacts := [abcDeclaring ⟨(hashBytes sampleDigests abc).blake3, [], []⟩ 3] } := rfl
  obtain ⟨hiff, -, -⟩ := verification_paths_agree_iff sampleDigests [] [[0x61], [0x62, 0x63]] hm
    (show Manifest.artifact _ "abc.bin".toList = some _ from rfl)
  obtain ⟨hsame, hread⟩ := hiff.mpr fun _ => ⟨rfl, fun h0 => absurd h0 (by decide)⟩
  have hok : ∃ got, verifyFile sampleDigests abc
      ⟨(hashBytes sampleDigests abc).blake3, [], []⟩ 3 [] = .ok got :=
    ⟨hashBytes sampleDigests abc, by decide +kernel⟩
  exact ⟨hread.mp hok, hsame.mpr hok⟩

end Atlas
