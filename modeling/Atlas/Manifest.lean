import Mathlib.Data.List.Infix
import Atlas.Hash

/-!
# Manifests

A manifest names artifacts, the digests and size each must have, and the
sources each can be fetched from. What is kept of the manifest here is what
validation, the download path and the source planner's callers read; the
descriptive fields are left out.

`Manifest.validate` is the structural check every imported manifest has
passed. It bounds digests to hexadecimal texts of the right length, and it
does not fix their letter case (`validateHexDigestLen_iff`).
-/

namespace Atlas

open Text

/-- The schema version this build understands; a manifest of any other is refused. -/
def SCHEMA_VERSION : Text := "1.0".toList

/-- The kinds of places that an artifact can be fetched from, as a policy or a plan refers
to them; every source of a manifest is of exactly one class. -/
inductive SourceClass where
  | huggingface
  | httpsMirror
  | iroh
  | bittorrentV2
  | lanPeer
  | localFile
  deriving DecidableEq, Repr

/-- What a source asks of those who fetch from it; the manifest never has the token itself,
only that one is needed. -/
inductive AuthPolicy where
  /-- No authentication required. -/
  | none
  /-- A bearer token is required; the engine looks it up in the OS keystore. -/
  | token
  deriving DecidableEq, Repr

/-- A place bytes can be fetched from, with what locates them there and how it
authenticates. -/
inductive Source where
  | huggingface (repoId revision path : Text) (auth : AuthPolicy)
  | httpsMirror (url : Text) (auth : AuthPolicy)
  | iroh (blobHash : Text) (tickets : List Text) (auth : AuthPolicy)
  | bittorrentV2 (magnetUri : Text) (fileMerkleRootSha256 : Option Text)
    (auth : AuthPolicy)
  /-- A peer on the local network serving its content-addressed store. -/
  | lanPeer (url : Text) (auth : AuthPolicy)
  /-- Import from a local file already on disk. -/
  | localFile (path : Text)
  deriving DecidableEq, Repr

namespace Source

/-- The class that a source belongs to, which policies and rankings go by. -/
def sourceClass : Source → SourceClass
  | huggingface _ _ _ _ => .huggingface
  | httpsMirror _ _ => .httpsMirror
  | iroh _ _ _ => .iroh
  | bittorrentV2 _ _ _ => .bittorrentV2
  | lanPeer _ _ => .lanPeer
  | localFile _ => .localFile

/-- A stable identifier for health/reputation tracking, made of the class and of what
locates the bytes. -/
def sourceId : Source → Text
  | huggingface repoId revision path _ =>
    "hf:".toList ++ repoId ++ "@".toList ++ revision ++ "/".toList ++ path
  | httpsMirror url _ => "https:".toList ++ url
  | iroh blobHash _ _ => "iroh:".toList ++ blobHash
  | bittorrentV2 magnetUri _ _ => "btv2:".toList ++ magnetUri
  | lanPeer url _ => "lan:".toList ++ url
  | localFile path => "file:".toList ++ path

/-- What a source asks for; a local file asks for nothing. -/
def auth : Source → AuthPolicy
  | huggingface _ _ _ auth => auth
  | httpsMirror _ auth => auth
  | iroh _ _ auth => auth
  | bittorrentV2 _ _ auth => auth
  | lanPeer _ auth => auth
  | localFile _ => .none

end Source

/-- How an artifact is cut into leaves, and what they hash to. -/
structure Chunking where
  leafSize : ℕ
  /-- Hex BLAKE3 Merkle root over the artifact's leaf hashes. -/
  leafB3MerkleRoot : Text
  deriving DecidableEq, Repr

/-- One file of a model: its place in an install, its digests and where it can be fetched. -/
structure Artifact where
  /-- Relative install path. -/
  path : Text
  /-- The declared size; 0 when it was unknown. -/
  sizeBytes : ℕ
  hashes : Hashes
  chunking : Option Chunking
  sources : List Source
  deriving DecidableEq, Repr

/-- Who may fetch a manifest's artifacts, from where, and whether it has to be signed. -/
structure Access where
  gated : Bool
  requireSignedManifest : Bool
  allowedSourceClasses : List SourceClass
  deriving DecidableEq, Repr

/-- What the engine reads of a manifest; `Document` has the rest. -/
structure Manifest where
  schemaVersion : Text
  manifestId : Text
  /-- Stable publisher identity. -/
  publisherId : Text
  access : Access
  artifacts : List Artifact
  deriving DecidableEq, Repr

/-- **What a byte string has to be to be an artifact's content**: it has every
digest the artifact declares, and its declared size unless that is 0. -/
structure Artifact.Describes (D : Digests) (a : Artifact) (b : Bytes) : Prop where
  digests : a.hashes.Match D b
  size : a.sizeBytes ≠ 0 → b.length = a.sizeBytes

/-! ## Validation -/

/-- Reject artifact paths that could escape the install root: empty ones, those with a NUL
byte, absolute ones, drives and parent components. -/
def validateArtifactPath (path : Text) : Except Error Unit :=
  if path.isEmpty then .error (.unsafePath "empty artifact path".toList)
  else if path.contains (Char.ofNat 0) then
    .error (.unsafePath "path contains NUL".toList)
  else if path.head? = some '/' || path.head? = some '\\' then
    .error (.unsafePath ("absolute path `".toList ++ path ++ "`".toList))
  else if path[1]? = some ':' && (path.head?.map isAsciiAlphabetic).getD false then
    .error (.unsafePath ("windows drive path `".toList ++ path ++ "`".toList))
  else if (path.splitOnP (fun c => c = '/' || c = '\\')).contains "..".toList then
    .error (.unsafePath ("parent traversal in `".toList ++ path ++ "`".toList))
  else .ok ()

/-- A manifest id derives on-disk filenames, so it must be a strict,
traversal-proof token. -/
def validateManifestId (id : Text) : Except Error Unit :=
  if id.isEmpty then .error (.invalidManifest "manifest_id is empty".toList)
  else if 200 < id.utf8Len then .error (.invalidManifest "manifest_id too long".toList)
  else if id.head? = some '.' then
    .error (.unsafePath ("manifest_id starts with `.`: `".toList ++ id ++ "`".toList))
  else if !id.all (fun c => isAsciiAlphanumeric c || c = '.' || c = '_' || c = '-' || c = ':')
    then .error (.unsafePath
      ("manifest_id `".toList ++ id ++ "` contains disallowed characters".toList))
  else if "..".toList <:+: id then
    .error (.unsafePath ("manifest_id contains `..`: `".toList ++ id ++ "`".toList))
  else .ok ()

/-- A digest must be as many hexadecimal digits as it should have, in either case. -/
def validateHexDigestLen (label s : Text) (len : ℕ) : Except Error Unit :=
  if s.utf8Len ≠ len ∨ !s.all isAsciiHexdigit then
    .error (.invalidManifest (label ++ " digest must be ".toList ++ (toString len).toList ++
      " hex chars, got `".toList ++ s ++ "`".toList))
  else .ok ()

/-- A digest of 32 bytes must be 64 hexadecimal digits; the label says in the error which
digest of which artifact is wrong. -/
def validateHexDigest (label s : Text) : Except Error Unit :=
  validateHexDigestLen label s 64

/-- The checks on one artifact. At least one strong digest is required. -/
def validateArtifact (art : Artifact) : Except Error Unit := do
  validateArtifactPath art.path
  if !art.hashes.hasBlake3 && !art.hashes.hasSha256 && !art.hashes.hasGitBlobSha1 then
    .error (.invalidManifest ("artifact `".toList ++ art.path ++
      "` has no blake3, sha256, or git_blob_sha1 digest".toList))
  if art.hashes.hasBlake3 then validateHexDigest "blake3".toList art.hashes.blake3
  if art.hashes.hasSha256 then validateHexDigest "sha256".toList art.hashes.sha256
  if art.hashes.hasGitBlobSha1 then
    validateHexDigestLen "git_blob_sha1".toList art.hashes.gitBlobSha1 40
  match art.chunking with
  | none => .ok ()
  | some c =>
    validateHexDigest "leaf_b3_merkle_root".toList c.leafB3MerkleRoot
    if c.leafSize = 0 then
      .error (.invalidManifest ("artifact `".toList ++ art.path ++
        "` has zero leaf_size".toList))
    -- a hostile manifest must not force a multi-gigabyte scratch allocation
    if MAX_LEAF_SIZE < c.leafSize then
      .error (.invalidManifest ("artifact `".toList ++ art.path ++ "` leaf_size ".toList ++
        (toString c.leafSize).toList ++ " exceeds maximum ".toList ++
        (toString MAX_LEAF_SIZE).toList))

namespace Manifest

/-- Find an artifact by its install path; the first is taken where two have the same. -/
def artifact (m : Manifest) (path : Text) : Option Artifact :=
  m.artifacts.find? (fun a => a.path = path)

/-- Validate structural invariants that do not require network or crypto: the schema
version, the id, the publisher and each artifact with its digests and sources. -/
def validate (m : Manifest) : Except Error Unit := do
  if m.schemaVersion ≠ SCHEMA_VERSION then
    .error (.invalidManifest ("unsupported schema_version `".toList ++ m.schemaVersion ++
      "` (this build understands `".toList ++ SCHEMA_VERSION ++ "`)".toList))
  validateManifestId m.manifestId
  if m.publisherId.trim.isEmpty then
    .error (.invalidManifest "publisher.id is empty".toList)
  if m.artifacts.isEmpty then
    .error (.invalidManifest "manifest has no artifacts".toList)
  m.artifacts.forM validateArtifact
  if m.access.gated && !m.access.requireSignedManifest then
    .error (.invalidManifest "gated model must set require_signed_manifest = true".toList)

end Manifest

/-- A valid manifest has an artifact. -/
theorem artifacts_ne_nil_of_validate {m : Manifest} (h : m.validate = .ok ()) :
    m.artifacts ≠ [] := by
  intro hnil
  unfold Manifest.validate at h
  rw [hnil] at h
  by_cases hversion : m.schemaVersion = SCHEMA_VERSION
  · cases hid : validateManifestId m.manifestId with
    | error e => simp [hid, hversion, bind, Except.bind] at h
    | ok u =>
      by_cases hpublisher : m.publisherId.trim.isEmpty = true <;>
        simp [hid, hversion, hpublisher, bind, Except.bind] at h
  · simp [hversion, bind, Except.bind] at h

/-- A declared digest is accepted when it is a hexadecimal text of the right
length, in either letter case. -/
theorem validateHexDigestLen_iff {label s : Text} {len : ℕ} :
    validateHexDigestLen label s len = .ok () ↔
      s.utf8Len = len ∧ s.all isAsciiHexdigit = true := by
  unfold validateHexDigestLen
  by_cases hlen : s.utf8Len = len <;> cases hhex : s.all isAsciiHexdigit <;>
    simp [hlen]

/-- The digests of a valid artifact are valid. -/
theorem validateHexDigest_of_validateArtifact {art : Artifact}
    (h : validateArtifact art = .ok ()) :
    (art.hashes.hasBlake3 → validateHexDigest "blake3".toList art.hashes.blake3 = .ok ()) ∧
      (art.hashes.hasSha256 → validateHexDigest "sha256".toList art.hashes.sha256 = .ok ()) := by
  unfold validateArtifact at h
  cases hpath : validateArtifactPath art.path with
  | error e =>
    rw [hpath] at h
    cases h
  | ok u =>
    rw [hpath] at h
    refine ⟨fun hb => ?_, fun hs => ?_⟩
    · rw [hb] at h
      cases hdigest : validateHexDigest "blake3".toList art.hashes.blake3 with
      | ok u => rfl
      | error e =>
        rw [hdigest] at h
        cases h
    · rw [hs] at h
      cases hdigest : validateHexDigest "sha256".toList art.hashes.sha256 with
      | ok u => rfl
      | error e =>
        rw [hdigest, Bool.not_true, Bool.and_false] at h
        cases hb : art.hashes.hasBlake3 with
        | false =>
          rw [hb] at h
          cases h
        | true =>
          cases hblake3 : validateHexDigest "blake3".toList art.hashes.blake3 with
          | error e =>
            rw [hb, hblake3] at h
            cases h
          | ok u =>
            rw [hb, hblake3] at h
            cases h

end Atlas
