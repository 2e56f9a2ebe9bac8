import Atlas.ManifestSigning

/-!
# The download policy

`evaluateDownload` decides whether a manifest may be downloaded at all, from what the
verification of its signatures reported and from the names of its files. Where a signature
is asked for, some have to be from a key the user trusts (`asksTrust`), and the key ids that
are reported as valid are compared with the trusted ones as texts.

The list of keys and the list of signatures are the manifest's own, and both name keys by
ids the manifest chooses. A trusted id still stands for its key: what is checked under an id
is the key that the id spells out (`valid_of_id`), whatever descriptor is found for it
first, and so a manifest that is let through for a trusted signer was signed by one
(`trusted_signer_signed`).
-/

namespace Atlas

open Text Json

/-! ## File names -/

/-- How far a file is trusted by its name: it is data, it may be, or it can run code. -/
inductive FileSafety where
  | safe
  | warn
  /-- Known to be dangerous; blocked unless overridden. -/
  | blocked
  deriving DecidableEq, Repr

/-- Executables, scripts, native libraries, and pickles: the extensions that are blocked
whatever a file claims to be. -/
def BLOCKED_EXTENSIONS : List Text :=
  ["pkl", "pickle", "pt", "pth", "ckpt", "exe", "dll", "so", "dylib", "msi", "scr", "com", "sh",
    "bash", "zsh", "bat", "cmd", "ps1", "py", "pyc", "js", "rb", "pl"].map String.toList

/-- Formats that are data only, which need no further permission. -/
def SAFE_EXTENSIONS : List Text :=
  ["gguf", "safetensors", "json", "txt", "md", "model", "vocab", "merges", "tiktoken", "yaml",
    "yml", "toml"].map String.toList

/-- Classify a file by its extension, with a reason, which the user is shown with it. -/
def classifyFileSafety (name : Text) : FileSafety × Text :=
  let ext := name.toAsciiLowercase.rtakeWhile fun c => c ≠ '.'
  let quoted := "`.".toList ++ ext ++ "`".toList
  if ext ∈ BLOCKED_EXTENSIONS then
    (.blocked, quoted ++ " can execute code or load unsafely; blocked by default".toList)
  else if ext ∈ SAFE_EXTENSIONS then (.safe, quoted ++ " is a pure-data format".toList)
  -- a `.bin` may be a pickle
  else if ext = "bin".toList then
    (.warn, "`.bin` is ambiguous and may be a pickle; treat with caution".toList)
  else (.warn, "unknown extension ".toList ++ quoted ++ "; treat with caution".toList)

/-! ## The decision -/

/-- What the user allows: whose signatures count, when one is asked for, and whether unsafe
files may pass. -/
structure PolicyConfig where
  /-- Key ids the user trusts to sign manifests. -/
  trustedKeys : List Text
  /-- Some valid signature is required even for public models. -/
  requireSignatureAlways : Bool
  /-- Otherwise blocked files are permitted. -/
  allowUnsafeFiles : Bool
  /-- Only signatures by a trusted key count. -/
  requireTrustedSigner : Bool
  deriving DecidableEq, Repr

/-- Whether a download may start, and what the user is told about it. -/
structure PolicyDecision where
  allowed : Bool
  reason : Text
  warnings : List Text
  redistribution : RedistributionClass
  blockedArtifacts : List Text
  deriving DecidableEq, Repr

namespace VerificationReport

/-- At least one signature verified, whether or not its key is trusted. -/
def isSigned (report : VerificationReport) : Bool := !report.validSignatures.isEmpty

/-- At least one trusted key produced a valid signature, which is more than that some key did. -/
def isTrustedBy (report : VerificationReport) (trusted : List Text) : Bool :=
  report.validSignatures.any fun k => trusted.contains k

end VerificationReport

/-- The license classes that are never redistributed publicly, and for which a signature is
therefore asked. -/
def RedistributionClass.isRestricted (c : RedistributionClass) : Bool :=
  c = .gatedNoRedistribution || c = .enterprisePrivate

section Policy

variable (cfg : PolicyConfig) (manifest : DocumentBody)

/-- A signature is asked for: the model is gated or says so itself, the user always wants
one, or the license is restricted. -/
def needsSignature : Bool :=
  manifest.access.gated || manifest.access.requireSignedManifest ||
    cfg.requireSignatureAlways || manifest.license.redistribution.isRestricted

/-- Where a signature is asked for, one by a trusted key is. -/
def asksTrust : Bool :=
  cfg.requireTrustedSigner || manifest.access.gated ||
    manifest.license.redistribution.isRestricted

/-- A download that may not start, for one reason, and with no file of it cleared. -/
def PolicyDecision.deny (redistribution : RedistributionClass) (reason : Text) :
    PolicyDecision :=
  ⟨false, reason, [], redistribution, []⟩

/-- What is to be said of the files, and which are blocked. -/
def checkFiles (artifacts : List DocumentArtifact) : List Text × List Text :=
  artifacts.foldl (fun found art =>
    let (safety, why) := classifyFileSafety art.path
    let warning := art.path ++ ": ".toList ++ why
    match safety with
    | .safe => found
    | .warn => (found.1 ++ [warning], found.2)
    | .blocked =>
      if cfg.allowUnsafeFiles then
        (found.1 ++ [warning ++ " (allowed by override)".toList], found.2)
      else (found.1, found.2 ++ [art.path])) ([], [])

/-- Evaluate whether a manifest may be downloaded at all: a signature where one is asked
for, a trusted one where the user wants it. -/
def evaluateDownload (report : VerificationReport) : PolicyDecision :=
  let class' := manifest.license.redistribution
  if needsSignature cfg manifest ∧ report.isSigned = false then
    .deny class'
      "this model requires a signed manifest, but no valid signature is present".toList
  else if needsSignature cfg manifest ∧ asksTrust cfg manifest ∧
      report.isTrustedBy cfg.trustedKeys = false then
    .deny class' "manifest is signed, but not by a key you trust".toList
  else
    let found := checkFiles cfg manifest.artifacts
    if found.2 ≠ [] then
      ⟨false, (toString found.2.length).toList ++
        " artifact(s) use blocked unsafe file types: ".toList ++
          List.intercalate ", ".toList found.2, found.1, class', found.2⟩
    else ⟨true, "download permitted".toList, found.1, class', []⟩

end Policy

/-- A manifest is let through for its trusted signer: it is, and one is asked for. -/
def AllowedByTrust (cfg : PolicyConfig) (manifest : DocumentBody) (report : VerificationReport) :
    Prop :=
  (evaluateDownload cfg manifest report).allowed = true ∧
    needsSignature cfg manifest = true ∧ asksTrust cfg manifest = true

instance (cfg : PolicyConfig) (manifest : DocumentBody) (report : VerificationReport) :
    Decidable (AllowedByTrust cfg manifest report) :=
  inferInstanceAs (Decidable (_ ∧ _ ∧ _))

/-- **A denial for want of trust comes first**: what is let through for its signer has a
valid signature by a trusted key id. -/
theorem AllowedByTrust.trusted {cfg : PolicyConfig} {manifest : DocumentBody}
    {report : VerificationReport} (h : AllowedByTrust cfg manifest report) :
    ∃ keyId ∈ report.validSignatures, keyId ∈ cfg.trustedKeys := by
  obtain ⟨hallowed, hneeds, hasks⟩ := h
  have htrusted : report.isTrustedBy cfg.trustedKeys = true := by
    by_contra hnot
    rw [Bool.not_eq_true] at hnot
    unfold evaluateDownload at hallowed
    dsimp only at hallowed
    split at hallowed
    · cases hallowed
    · rw [if_pos ⟨hneeds, hasks, hnot⟩] at hallowed
      cases hallowed
  obtain ⟨keyId, hvalid, hcontains⟩ := List.any_eq_true.mp htrusted
  exact ⟨keyId, hvalid, List.contains_iff_mem.mp hcontains⟩

/-! ## Key ids -/

/-- **A key id is derived from a key**: it spells the key out, in digits of either case. -/
def IdOf (keyId : Text) (key : Bytes) : Prop :=
  ∃ hex, keyId = keyIdPrefix ++ hex ∧ hexDecode hex = some key

/-- **An id is derived from one key at most.** -/
theorem IdOf.unique {keyId : Text} {key key' : Bytes} (h : IdOf keyId key)
    (h' : IdOf keyId key') : key = key' := by
  obtain ⟨hex, hid, hkey⟩ := h
  obtain ⟨hex', hid', hkey'⟩ := h'
  obtain rfl := List.append_cancel_left (hid.symm.trans hid')
  exact Option.some.inj (hkey.symm.trans hkey')

variable {S : SigningScheme}

/-- **What verifies is checked with the key of its id**, not with any the manifest supplies
for it. -/
theorem verifies_of_id {d : DocumentBody} {bytes : Bytes} {s : Signature}
    (h : d.verifies S bytes s = true) :
    ∃ key, IdOf s.keyId key ∧ S.accepts key bytes s.signature = true := by
  unfold DocumentBody.verifies at h
  cases hd : d.descriptor s.keyId with
  | none =>
    rw [hd] at h
    cases h
  | some pk =>
    rw [hd] at h
    unfold verifyOne at h
    dsimp only at h
    split at h
    · rename_i hstem
      obtain ⟨hex, hhex⟩ := List.isPrefixOf_iff_prefix.mp hstem
      have hdrop : s.keyId.drop keyIdPrefix.length = hex := by
        rw [← hhex]
        exact List.drop_left
      rw [hdrop] at h
      split at h
      · cases h
      · cases hkey : hexDecode hex with
        | none =>
          rw [hkey] at h
          cases h
        | some key =>
          rw [hkey] at h
          exact ⟨key, ⟨hex, hhex.symm, hkey⟩, h⟩
    · cases h

/-- A key id that is reported as valid is that of a key whose signature is on the manifest. -/
theorem valid_of_id {d : Document} {keyId : Text} (h : d.Valid S keyId) :
    ∃ key, IdOf keyId key ∧ ∃ s ∈ d.signatures,
      S.accepts key d.canonicalBytes s.signature = true := by
  obtain ⟨s, hs, rfl, hverifies⟩ := Document.valid_iff.mp h
  obtain ⟨key, hid, haccepts⟩ := verifies_of_id hverifies
  exact ⟨key, hid, s, hs, haccepts⟩

/-- **A manifest that is let through for a trusted signer was signed by one**, if the scheme
is ideal: the key that some trusted id is derived from signed the canonical bytes of this
manifest. -/
theorem trusted_signer_signed {Signed : Bytes → Bytes → Prop}
    (hideal : S.toSignatureScheme.Ideal Signed) (cfg : PolicyConfig) (manifest : Document)
    (h : AllowedByTrust cfg manifest.toDocumentBody (verifyManifest S manifest)) :
    ∃ keyId ∈ cfg.trustedKeys, ∃ key, IdOf keyId key ∧ Signed key manifest.canonicalBytes := by
  obtain ⟨keyId, hvalid, htrusted⟩ := h.trusted
  obtain ⟨key, hid, s, -, haccepts⟩ := valid_of_id (S := S) hvalid
  exact ⟨keyId, htrusted, key, hid, hideal.signed haccepts⟩

/-! ## A manifest of a trusted signer -/

/-- The signature scheme in which the known signatures were made and no others. -/
def onlyKnownSigners : SigningScheme where
  toSignatureScheme := .knowing (knownSigners.map KnownSecret.toKnownSignature)
  publicKey := (SigningScheme.knowing knownSigners).publicKey
  sign := (SigningScheme.knowing knownSigners).sign
  base64Encode := (SigningScheme.knowing knownSigners).base64Encode

/-- A manifest with the descriptors of both signers: one by each, and a third under the id
of the first with the material of the second. -/
def contestedManifest : Document :=
  let first := descriptorOf (signerKeys.getD 0 [])
  let second := descriptorOf (signerKeys.getD 1 [])
  { manifestWith signerKeys with
    signatures := [
      ⟨first.keyId, .ed25519, (knownSigners.map fun k => k.value).getD 1 []⟩,
      ⟨first.keyId, .ed25519, (knownSigners.map fun k => k.value).getD 2 []⟩,
      ⟨second.keyId, .ed25519, (knownSigners.map fun k => k.value).getD 2 []⟩,
      ⟨second.keyId, .ed25519, "not base64".toList⟩] }

/-- The user trusts the first signer, and requires a trusted one, so that a manifest only
another signs is refused. -/
def trustingFirst : PolicyConfig :=
  ⟨[keyIdPrefix ++ hexEncode (signerKeys.getD 0 [])], false, false, true⟩

/-- A manifest with valid and invalid signatures under both ids is let through for the one
valid signature of the trusted signer, who made it. -/
theorem contested_signer_signed :
    ∃ keyId ∈ trustingFirst.trustedKeys, ∃ key, IdOf keyId key ∧
      SignedIn (knownSigners.map KnownSecret.toKnownSignature) key
        contestedManifest.canonicalBytes :=
  trusted_signer_signed (S := onlyKnownSigners) (SignatureScheme.knowing_ideal _) trustingFirst
    contestedManifest (by decide +kernel)

end Atlas
