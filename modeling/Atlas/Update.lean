import Atlas.Signature

/-!
# Release manifests

A release manifest says, for each app, which version is the latest and which
file to install on which platform, with the SHA-256 of each file. It is signed
over its canonical form, which is the manifest without its signatures, and a
signature counts when its key is in the trust set the program was built with.

The JSON library is a parameter as far as reading a document and printing a
value go; what is printed for a manifest is here. So is the version library.
-/

namespace Atlas

open Text

/-! ## The manifest -/

/-- A detached signature over a manifest's canonical bytes. `keyId` is
`ed25519:<hex>` and carries the verifying key inline. -/
structure UpdateSignature where
  keyId : Text
  algorithm : Text
  /-- base64 of the 64-byte ed25519 signature. -/
  value : Text
  deriving DecidableEq, Repr

/-- One downloadable artifact for a specific OS, arch and flavor. -/
structure PlatformAsset where
  os : Text
  arch : Text
  flavor : Text
  /-- Bare file name on the release. -/
  name : Text
  url : Text
  /-- Lowercase hex SHA-256 of the asset bytes. -/
  sha256 : Text
  size : ℕ
  signature : Text
  deriving DecidableEq, Repr

/-- Release info for one app: its version, the oldest one that is not forced to update, and
its builds. -/
structure AppRelease where
  app : Text
  version : Text
  /-- Clients strictly older than this should treat the update as forced. -/
  minSupported : Text
  notesUrl : Text
  assets : List PlatformAsset
  deriving DecidableEq, Repr

/-- The full signed manifest the server serves and clients verify. -/
structure ReleaseManifest where
  schema : ℕ
  channel : Text
  generatedAt : ℤ
  /-- After this instant (unix millis) the manifest is stale. -/
  expiresAt : ℤ
  apps : List AppRelease
  /-- Excluded from the signed bytes. -/
  signatures : List UpdateSignature
  deriving DecidableEq, Repr

/-! ## Canonical bytes -/

/-- A JSON value; the keys of an object in ascending order, and no number but an integer, as
manifests have no others. -/
inductive Json where
  | number (n : ℤ)
  | string (s : Text)
  | array (items : List Json)
  | object (fields : List (Text × Json))

namespace UpdateSignature

/-- The object it is written as, with its keys in the order in which they are signed. -/
def toValue (s : UpdateSignature) : Json :=
  .object [("algorithm".toList, .string s.algorithm), ("key_id".toList, .string s.keyId),
    ("value".toList, .string s.value)]

end UpdateSignature

namespace PlatformAsset

/-- The object it is written as, with its keys in the order in which they are signed. -/
def toValue (a : PlatformAsset) : Json :=
  .object [("arch".toList, .string a.arch), ("flavor".toList, .string a.flavor),
    ("name".toList, .string a.name), ("os".toList, .string a.os),
    ("sha256".toList, .string a.sha256), ("signature".toList, .string a.signature),
    ("size".toList, .number a.size), ("url".toList, .string a.url)]

end PlatformAsset

namespace AppRelease

/-- The object it is written as, with its keys in the order in which they are signed. -/
def toValue (r : AppRelease) : Json :=
  .object [("app".toList, .string r.app),
    ("assets".toList, .array (r.assets.map PlatformAsset.toValue)),
    ("min_supported".toList, .string r.minSupported),
    ("notes_url".toList, .string r.notesUrl), ("version".toList, .string r.version)]

end AppRelease

/-- What the libraries the updater relies on do: reading and printing JSON, comparing
versions, hashing, and verifying signatures. -/
structure UpdateLibs where
  /-- Read a manifest from JSON. -/
  fromJson : Bytes → Except Text ReleaseManifest
  /-- Print a JSON value compactly. -/
  toVec : Json → Bytes
  /-- Versions and their order, as semver has them. -/
  Version : Type
  parseVersion : Text → Option Version
  versionGt : Version → Version → Bool
  scheme : SignatureScheme
  sha256 : Bytes → Bytes

namespace ReleaseManifest

/-- The object it is written as, with its keys in the order in which they are signed. -/
def toValue (m : ReleaseManifest) : Json :=
  .object [("apps".toList, .array (m.apps.map AppRelease.toValue)),
    ("channel".toList, .string m.channel), ("expires_at".toList, .number m.expiresAt),
    ("generated_at".toList, .number m.generatedAt), ("schema".toList, .number m.schema),
    ("signatures".toList, .array (m.signatures.map UpdateSignature.toValue))]

end ReleaseManifest

/-- A JSON object without one of its fields; any other value is as it was. -/
def Json.remove (key : Text) : Json → Json
  | .object fields => .object (fields.filter fun field => field.1 ≠ key)
  | value => value

/-! ## Trust -/

section Libs

variable (L : UpdateLibs)

/-- Deterministic bytes signed and verified, with `signatures` removed, printed compactly. -/
def ReleaseManifest.canonicalBytes (m : ReleaseManifest) : Bytes :=
  L.toVec (m.toValue.remove "signatures".toList)

/-- A key as written in a signature or a trust set, with the `ed25519:` prefix
or without it. -/
def normKey (s : Text) : Text :=
  (trimStartMatches "ed25519:".toList s.trim).toAsciiLowercase

/-- Trust a signature only if its exact key is in the trust set and it verifies
over the bytes. -/
def signatureIsTrusted (bytes : Bytes) (sig : UpdateSignature) (trusted : List Text) : Bool :=
  if !eqIgnoreAsciiCase sig.algorithm "ed25519".toList then false
  else
    let pubHex := normKey sig.keyId
    if !trusted.any (fun t => normKey t = pubHex) then false
    else match hexDecode pubHex with
      | none => false
      | some key => L.scheme.accepts key bytes sig.value

/-- Some signature is from a trusted key and verifies over the canonical bytes. -/
def ReleaseManifest.isSignedByTrusted (m : ReleaseManifest) (trusted : List Text) : Bool :=
  m.signatures.any fun sig => signatureIsTrusted L (m.canonicalBytes L) sig trusted

/-- `a > b` under semver, with unparsable inputs treated as "not greater". -/
def versionGt (a b : Text) : Bool :=
  match L.parseVersion a.trim, L.parseVersion b.trim with
  | some a, some b => L.versionGt a b
  | _, _ => false

/-- Is `current` strictly older than this release's version, in the order of the libraries? -/
def AppRelease.isNewerThan (r : AppRelease) (current : Text) : Bool :=
  versionGt L r.version current

/-- Is `current` below the security floor? An empty floor is none. -/
def AppRelease.isForcedFor (r : AppRelease) (current : Text) : Bool :=
  if r.minSupported.trim.isEmpty then false else versionGt L r.minSupported current

end Libs

/-- Clock-skew slack past the expiry within which a manifest is still tolerated. -/
def EXPIRY_SKEW_MS : ℤ := 24 * 60 * 60 * 1000

/-- True once `nowMs` is past the expiry, plus a small skew, and saturates like the
arithmetic of the source instead of wrapping. -/
def ReleaseManifest.isExpired (m : ReleaseManifest) (nowMs : ℤ) : Bool :=
  EXPIRY_SKEW_MS < saturatingSub nowMs m.expiresAt

/-- The release entry for an app, if present, its name compared without regard to case. -/
def ReleaseManifest.app (m : ReleaseManifest) (app : Text) : Option AppRelease :=
  m.apps.find? fun a => eqIgnoreAsciiCase a.app app

/-! ## Assets -/

/-- Canonicalize an OS token, accepting the common aliases in any case; an unknown one is
kept as it is. -/
def normalizeOs (os : Text) : Text :=
  let os := os.trim.toAsciiLowercase
  if os ∈ ["macos".toList, "darwin".toList, "osx".toList, "mac".toList] then "macos".toList
  else if os ∈ ["windows".toList, "win".toList, "win32".toList, "win64".toList] then
    "windows".toList
  else os

/-- Canonicalize an arch token, accepting the common aliases in any case; an unknown one is
kept as it is. -/
def normalizeArch (arch : Text) : Text :=
  let arch := arch.trim.toAsciiLowercase
  if arch ∈ ["x86_64".toList, "amd64".toList, "x64".toList] then "x86_64".toList
  else if arch ∈ ["aarch64".toList, "arm64".toList] then "aarch64".toList
  else arch

/-- An asset is for an OS, an arch and, if one is asked for, a flavor. -/
def PlatformAsset.isFor (os arch : Text) (flavor : Option Text) (a : PlatformAsset) : Bool :=
  normalizeOs a.os = normalizeOs os &&
    (normalizeArch a.arch = normalizeArch arch ||
      eqIgnoreAsciiCase a.arch "universal".toList) &&
    flavor.all fun f => eqIgnoreAsciiCase a.flavor f

/-- Pick the asset matching an OS and an arch, optionally constrained to a
flavor; a `universal` asset matches any arch on its OS. -/
def AppRelease.selectAsset (r : AppRelease) (os arch : Text) (flavor : Option Text) :
    Option PlatformAsset :=
  r.assets.find? (PlatformAsset.isFor os arch flavor)

/-! ## What a trusted manifest owes -/

variable {L : UpdateLibs}

/-- **A trusted manifest was signed by a trusted key**, if the scheme is ideal. -/
theorem ReleaseManifest.signed_of_isSignedByTrusted {Signed : Bytes → Bytes → Prop}
    (hideal : L.scheme.Ideal Signed) {m : ReleaseManifest} {trusted : List Text}
    (h : m.isSignedByTrusted L trusted = true) :
    ∃ t ∈ trusted, ∃ key, hexDecode (normKey t) = some key ∧
      Signed key (m.canonicalBytes L) := by
  obtain ⟨sig, -, hsig⟩ := List.any_eq_true.mp h
  unfold signatureIsTrusted at hsig
  split at hsig
  · cases hsig
  · dsimp only at hsig
    split at hsig
    · cases hsig
    · rename_i htrusted
      rw [Bool.not_eq_true, Bool.not_eq_false'] at htrusted
      obtain ⟨t, ht, hnorm⟩ := List.any_eq_true.mp htrusted
      cases hkey : hexDecode (normKey sig.keyId) with
      | none =>
        rw [hkey] at hsig
        cases hsig
      | some key =>
        rw [hkey] at hsig
        refine ⟨t, ht, key, ?_, hideal.signed hsig⟩
        rw [of_decide_eq_true hnorm]
        exact hkey

end Atlas
