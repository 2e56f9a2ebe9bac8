import Atlas.ManifestSigning

/-!
# Signed documents read leniently

A document is signed over its canonical form. When it is read, what this build does
not know is dropped and what is missing is filled in, and what is verified are the
bytes of the result. The two are the same exactly for a document in plain form
(`plain`): it is an object with the members this build writes and no others, with
nothing left to a default, at every level, and without a source or a source class that
this build does not know.
-/

namespace Atlas

open Text Json

variable {S : SigningScheme}

/-- A document that is written back, up to its signatures, the way it is. -/
def plain : Json → Bool
  | obj fields =>
    (fields.all fun f => f.1 = "signatures".toList || Document.bodyRecord.names.contains f.1) &&
      Document.bodyRecord.verbatim (member · fields)
  | _ => false

/-- **Reading keeps the canonical form** of a document exactly if it is plain. -/
theorem canonicalBytes_eq_iff {doc : Json} {d : Document} (h : Document.fromJson doc = some d) :
    d.canonicalBytes = canonicalForm doc ↔ plain doc = true := by
  rw [Document.canonicalBytes_eq]
  refine toVec_injective.eq_iff.trans ?_
  exact Record.encode_eq_without_iff (show Document.signaturesField.name ∉
    Document.bodyRecord.names by decide) h

/-- **What is verified of a document that was read.** Its canonical bytes are its
canonical form exactly if it is plain. And when all its signatures are valid over its
canonical form, and none of them is good for two messages, they are all reported valid
exactly if it is plain. -/
theorem lenient_parse_iff {doc : Json} {d : Document} (h : Document.fromJson doc = some d) :
    (d.canonicalBytes = canonicalForm doc ↔ plain doc = true) ∧
      (d.signatures ≠ [] →
        (∀ s ∈ d.signatures, d.verifies S (canonicalForm doc) s = true) →
        (∀ s ∈ d.signatures, ∀ key, S.accepts key (canonicalForm doc) s.signature = true →
          S.accepts key d.canonicalBytes s.signature = true →
            d.canonicalBytes = canonicalForm doc) →
        ((verifyManifest S d).validSignatures = d.signatures.map Signature.keyId ↔
          plain doc = true)) := by
  refine ⟨canonicalBytes_eq_iff h, fun hsigned hvalid hbind => ?_⟩
  have hall : (verifyManifest S d).validSignatures = d.signatures.map Signature.keyId ↔
      ∀ s ∈ d.signatures, d.verifies S d.canonicalBytes s = true := by
    rw [validSignatures_eq]
    constructor
    · intro heq
      have hlength := congrArg List.length heq
      rw [List.length_map, List.length_map] at hlength
      exact List.length_filter_eq_length_iff.mp hlength
    · intro hverifies
      rw [List.filter_eq_self.mpr hverifies]
  rw [hall, ← canonicalBytes_eq_iff h]
  constructor
  · intro hverifies
    obtain ⟨s, hs⟩ := List.exists_mem_of_ne_nil _ hsigned
    obtain ⟨-, key, -, -, hkey, hform⟩ := verifies_eq_true (hvalid s hs)
    obtain ⟨-, key', -, -, hkey', hbytes⟩ := verifies_eq_true (hverifies s hs)
    cases hkey.symm.trans hkey'
    exact hbind s hs key hform hbytes
  · intro heq s hs
    rw [heq]
    exact hvalid s hs

/-! ## A source of another time -/

/-- A document with some sources, that names the first signer's key; the other members are
fixed, so that only sources and signatures vary in the examples. -/
def documentWith (sources : List Json) (signatures : List Json) : Json :=
  obj [("schema_version".toList, str "1.0".toList),
    ("manifest_id".toList, str "mdl_b3_test".toList),
    ("publisher".toList, obj [("id".toList, str "hf:Qwen/Qwen3-8B-Instruct-GGUF".toList),
      ("public_keys".toList, arr [obj [
        ("key_id".toList, str (firstSigner.keyId (.knowing knownSigners))),
        ("algorithm".toList, str "ed25519".toList),
        ("public_key".toList, str (firstSigner.publicHex (.knowing knownSigners))),
        ("purpose".toList, arr [str "manifest-signing".toList])]])]),
    ("model".toList, obj [("name".toList, str "Qwen3 8B Instruct GGUF".toList)]),
    ("license".toList, obj [("spdx".toList, str "apache-2.0".toList),
      ("redistribution".toList, str "public_p2p_allowed".toList)]),
    ("access".toList, obj [("gated".toList, bool false),
      ("require_signed_manifest".toList, bool true),
      ("allowed_source_classes".toList, arr [])]),
    ("artifacts".toList, arr [obj [
      ("path".toList, str "qwen3-8b-instruct-q4_k_m.gguf".toList),
      ("role".toList, str "weights".toList),
      ("size_bytes".toList, num (ofNat 4920000000)),
      ("hashes".toList, obj [("blake3".toList, str (List.replicate 64 'a')),
        ("sha256".toList, str (List.replicate 64 'c'))]),
      ("sources".toList, arr sources)]]),
    ("signatures".toList, arr signatures)]

/-- A source that every build knows, an HTTPS mirror without authentication. -/
def mirrorSource : Json :=
  obj [("type".toList, str "https_mirror".toList),
    ("url".toList, str "https://mirror.example/model.gguf".toList),
    ("auth".toList, str "none".toList)]

/-- A source that this build does not know any more, so that a lenient parse leaves it out,
and the document that is written again lacks it. -/
def ipfsSource : Json :=
  obj [("type".toList, str "ipfs".toList), ("cid".toList, str "bafy".toList)]

/-- The signer's signatures over the document with the first source, and with both. -/
def knownDocuments : List KnownSecret := [
  { secret := firstSigner.secret
    key := signerKeys.getD 0 []
    message := canonicalForm (documentWith [mirrorSource] [])
    sig := ofNumber 64 0x963a7e42a36ac5141a7df06db563457b6ed510874308661a57280689393f450fad4bd901ad4704db91f3dd333b0f6002d3a140a2323874a39b64948cbf30ad04
    value := ("ljp+QqNqxRQaffBttWNFe27VEIdDCGYaVygGiTk/RQ+tS9kBrUcE25Hz3TM7D2AC06FAojI4dKOb" ++
      "ZJSMvzCtBA==").toList },
  { secret := firstSigner.secret
    key := signerKeys.getD 0 []
    message := canonicalForm (documentWith [mirrorSource, ipfsSource] [])
    sig := ofNumber 64 0x616b80afc2671b753cfc652817922d11187118fb0b8d8517049481b06aa8862eddcb045b3e2eff334f8a9561d8f5c7b9e3e4ae4eb00e08dab23fc6293ce9990d
    value := ("YWuAr8JnG3U8/GUoF5ItERhxGPsLjYUXBJSBsGqohi7dywRbPi7/M0+KlWHY9ce54+SuTrAOCNqy" ++
      "P8YpPOmZDQ==").toList }]

/-- A document with some sources, signed over the canonical form that the publisher's build
made of it. -/
def signedDocument (sources : List Json) (sig : ℕ) : Json :=
  documentWith sources [obj [
    ("key_id".toList, str (firstSigner.keyId (.knowing knownSigners))),
    ("algorithm".toList, str "ed25519".toList),
    ("signature".toList, str ((knownDocuments.map fun k => k.value).getD sig []))]]

/-- **A dropped source takes the signature with it.** The document is read, its
signature is valid over its canonical form, and is reported invalid. -/
theorem legacy_signature_lost :
    ∃ d ∈ Document.fromJson (signedDocument [mirrorSource, ipfsSource] 1),
      d.signatures.length = 1 ∧
        (∀ s ∈ d.signatures, d.verifies (.knowing knownDocuments)
          (canonicalForm (signedDocument [mirrorSource, ipfsSource] 1)) s = true) ∧
        (verifyManifest (.knowing knownDocuments) d).validSignatures = [] ∧
        d.canonicalBytes ≠ canonicalForm (signedDocument [mirrorSource, ipfsSource] 1) := by
  decide +kernel

/-- A plain document's signature is reported valid. -/
theorem plain_signature_valid :
    ∃ d ∈ Document.fromJson (signedDocument [mirrorSource] 0),
      (verifyManifest (.knowing knownDocuments) d).validSignatures =
        d.signatures.map Signature.keyId := by
  obtain ⟨d, hd, hsigned, hvalid⟩ : ∃ d ∈ Document.fromJson (signedDocument [mirrorSource] 0),
      d.signatures ≠ [] ∧ ∀ s ∈ d.signatures, d.verifies (.knowing knownDocuments)
        (canonicalForm (signedDocument [mirrorSource] 0)) s = true := by
    decide +kernel
  have hplain : plain (signedDocument [mirrorSource] 0) = true := by decide +kernel
  obtain ⟨hbytes, hreported⟩ := @lenient_parse_iff (.knowing knownDocuments) _ d hd
  exact ⟨d, hd, (hreported hsigned hvalid fun _ _ _ _ _ => hbytes.mpr hplain).mpr hplain⟩

end Atlas
