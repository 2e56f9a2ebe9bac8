import Atlas.JsonCodec
import Atlas.Manifest

/-!
# Manifest documents

A manifest as it is published: everything that is signed, and the signatures. The
download path reads only a part of it (`Document.manifest`).

The types are declared with what their members are when they are missing, and which of
them are not written, and sources and source classes that this build does not know
are dropped when a document is read. What is signed are the canonical bytes: the
document without its signatures, as it is written back, with sorted members and no
space.
-/

namespace Atlas

open Json

/-! ## Types -/

/-- The algorithms that a signature can be made with; there is one. -/
inductive SigAlgorithm where
  | ed25519
  deriving DecidableEq, Repr

/-- A descriptor of a public key. Keys of a publisher are told apart by their ids. -/
structure PublicKey where
  /-- `ed25519:<hex32>` by convention. -/
  keyId : Text
  algorithm : SigAlgorithm
  /-- Raw public key material, hex-encoded. -/
  publicKey : Text
  purpose : List Text
  deriving DecidableEq, Repr

/-- Who publishes a manifest, with the keys that may sign for it. -/
structure Publisher where
  /-- Stable publisher identity. -/
  id : Text
  displayName : Option Text
  /-- Public keys that may sign manifests for this publisher. -/
  publicKeys : List PublicKey
  deriving DecidableEq, Repr

/-- What a model is called and what it is made of; nothing but the name has to be known. -/
structure Model where
  name : Text
  family : Option Text
  architecture : Option Text
  /-- Revision pin, for reproducibility. -/
  revision : Option Text
  format : Option Text
  quantization : Option Text
  deriving DecidableEq, Repr

/-- Redistribution policy class: how far a model may be passed on, as its license allows. -/
inductive RedistributionClass where
  | publicP2pAllowed
  | publicDownloadOnly
  /-- Never redistributed publicly by default. -/
  | gatedNoRedistribution
  /-- Confined to local cache and authorized enterprise sources only. -/
  | enterprisePrivate
  deriving DecidableEq, Repr

/-- The license of a model, and what it allows to be done with its files. -/
structure License where
  spdx : Text
  licenseUrl : Option Text
  redistribution : RedistributionClass
  deriving DecidableEq, Repr

/-- Where a manifest comes from, as its maker says. Nothing of it is required or checked. -/
structure Provenance where
  origin : Option Text
  /-- A reference to the model's source or card. -/
  modelCardRef : Option Text
  note : Option Text
  malwareBadgesObserved : Option Bool
  generatedAt : Option Text
  deriving DecidableEq, Repr

/-- An artifact, with its role and file format, which the download path does not read. -/
structure DocumentArtifact extends Artifact where
  role : Text
  format : Option Text
  deriving DecidableEq, Repr

/-- A detached signature, under the id of the key it was made with. -/
structure Signature where
  keyId : Text
  algorithm : SigAlgorithm
  /-- Base64-encoded raw signature. -/
  signature : Text
  deriving DecidableEq, Repr

/-- What of a manifest is signed: every member but the signatures themselves. -/
structure DocumentBody where
  schemaVersion : Text
  manifestId : Text
  publisher : Publisher
  model : Model
  license : License
  access : Access
  artifacts : List DocumentArtifact
  provenance : Option Provenance
  deriving DecidableEq, Repr

/-- A manifest: the body that is signed, and the signatures over it, none or many. -/
structure Document extends DocumentBody where
  signatures : List Signature
  deriving DecidableEq, Repr

/-- What the download path reads of a manifest; the rest describes the model to people. -/
def DocumentBody.manifest (d : DocumentBody) : Manifest where
  schemaVersion := d.schemaVersion
  manifestId := d.manifestId
  publisherId := d.publisher.id
  access := d.access
  artifacts := d.artifacts.map DocumentArtifact.toArtifact

/-! ## Names -/

/-- The name of a class of sources in a document. -/
def SourceClass.name : SourceClass → Text
  | huggingface => "huggingface".toList
  | httpsMirror => "https_mirror".toList
  | iroh => "iroh".toList
  | bittorrentV2 => "bittorrent_v2".toList
  | lanPeer => "lan_peer".toList
  | localFile => "local_file".toList

/-- The name of an authentication policy in a document. -/
def AuthPolicy.name : AuthPolicy → Text
  | none => "none".toList
  | token => "token".toList

/-- The name of a signature algorithm in a document. -/
def SigAlgorithm.name : SigAlgorithm → Text
  | ed25519 => "ed25519".toList

/-- The name of a redistribution class in a document. -/
def RedistributionClass.name : RedistributionClass → Text
  | publicP2pAllowed => "public_p2p_allowed".toList
  | publicDownloadOnly => "public_download_only".toList
  | gatedNoRedistribution => "gated_no_redistribution".toList
  | enterprisePrivate => "enterprise_private".toList

/-- What of some values has a name; the first is taken where several had one. -/
def ofName {α : Type} (values : List α) (name : α → Text) (s : Text) : Option α :=
  values.find? fun a => name a = s

theorem name_of_ofName {α : Type} {values : List α} {name : α → Text} (s : Text) (a : α)
    (h : ofName values name s = some a) : name a = s := by
  unfold ofName at h
  have hfound := List.find?_some h
  exact of_decide_eq_true hfound

/-- Every class of sources there is, in the order in which the source lists them. -/
def SourceClass.all : List SourceClass :=
  [.huggingface, .httpsMirror, .iroh, .bittorrentV2, .lanPeer, .localFile]

/-- The class of sources of a name, if it is one, and nothing otherwise. -/
def SourceClass.ofName : Text → Option SourceClass := Atlas.ofName SourceClass.all SourceClass.name

theorem SourceClass.ofName_name (c : SourceClass) : SourceClass.ofName c.name = some c := by
  cases c <;> decide

/-! ## Codecs -/

/-- Whether a value is `null`, which is all that a variant without data may have beside its
name. -/
def isNull : Json → Bool
  | null => true
  | _ => false

/-- Inside a buffered object an empty object is nothing, too, which is what a unit variant
may be read from. -/
def isBufferedUnit : Json → Bool
  | null => true
  | obj [] => true
  | _ => false

/-- Classes of sources are written by their names, and no other name is read. -/
def SourceClass.codec : Codec SourceClass :=
  .choice SourceClass.name SourceClass.ofName isNull name_of_ofName SourceClass.ofName_name

/-- Authentication policies are written by their names, and no other name is read. -/
def AuthPolicy.codec : Codec AuthPolicy :=
  .choice AuthPolicy.name (ofName [.none, .token] AuthPolicy.name) isBufferedUnit name_of_ofName
    fun a => by cases a <;> decide

/-- Signature algorithms are written by their names, of which there is one. -/
def SigAlgorithm.codec : Codec SigAlgorithm :=
  .choice SigAlgorithm.name (ofName [.ed25519] SigAlgorithm.name) isNull name_of_ofName
    fun a => by cases a; decide

/-- Redistribution classes are written by their names, in snake case as the other
enumerations are. -/
def RedistributionClass.codec : Codec RedistributionClass :=
  .choice RedistributionClass.name
    (ofName [.publicP2pAllowed, .publicDownloadOnly, .gatedNoRedistribution, .enterprisePrivate]
      RedistributionClass.name) isNull name_of_ofName fun a => by cases a <;> decide

/-- An unsigned 64-bit integer; a number below zero or from 2^64 on is refused. -/
def u64 : Codec ℕ := .unsigned (2 ^ 64)

/-- A key descriptor as an object; without a purpose, the list of purposes is empty. -/
def PublicKey.codec : Codec PublicKey :=
  .object <| Record.iso
    (.cons (.required "key_id".toList .text)
      (.cons (.required "algorithm".toList SigAlgorithm.codec)
        (.cons (.required "public_key".toList .text)
          (.single (.defaulted "purpose".toList (.list .text) []))
          (by decide)) (by decide)) (by decide))
    { toFun := fun (keyId, algorithm, publicKey, purpose) =>
        ⟨keyId, algorithm, publicKey, purpose⟩
      invFun := fun k => (k.keyId, k.algorithm, k.publicKey, k.purpose)
      left_inv := fun _ => rfl
      right_inv := fun _ => rfl }

/-- A publisher as an object; the keys may be absent, and are then none. -/
def Publisher.codec : Codec Publisher :=
  .object <| Record.iso
    (.cons (.required "id".toList .text)
      (.cons (.optional "display_name".toList .text)
        (.single (.defaulted "public_keys".toList (.list PublicKey.codec) []))
        (by decide)) (by decide))
    { toFun := fun (id, displayName, publicKeys) => ⟨id, displayName, publicKeys⟩
      invFun := fun p => (p.id, p.displayName, p.publicKeys)
      left_inv := fun _ => rfl
      right_inv := fun _ => rfl }

/-- A model as an object in which only the name is required. -/
def Model.codec : Codec Model :=
  .object <| Record.iso
    (.cons (.required "name".toList .text)
      (.cons (.optional "family".toList .text)
        (.cons (.optional "architecture".toList .text)
          (.cons (.optional "revision".toList .text)
            (.cons (.optional "format".toList .text)
              (.single (.optional "quantization".toList .text))
              (by decide)) (by decide)) (by decide)) (by decide)) (by decide))
    { toFun := fun (name, family, architecture, revision, format, quantization) =>
        ⟨name, family, architecture, revision, format, quantization⟩
      invFun := fun m =>
        (m.name, m.family, m.architecture, m.revision, m.format, m.quantization)
      left_inv := fun _ => rfl
      right_inv := fun _ => rfl }

/-- A license as an object; an unknown redistribution class is an error, unlike an unknown
class of sources. -/
def License.codec : Codec License :=
  .object <| Record.iso
    (.cons (.required "spdx".toList .text)
      (.cons (.optional "license_url".toList .text)
        (.single (.required "redistribution".toList RedistributionClass.codec))
        (by decide)) (by decide))
    { toFun := fun (spdx, licenseUrl, redistribution) => ⟨spdx, licenseUrl, redistribution⟩
      invFun := fun l => (l.spdx, l.licenseUrl, l.redistribution)
      left_inv := fun _ => rfl
      right_inv := fun _ => rfl }

/-- The fields of the access policy. A manifest that says nothing about signatures requires
one, and classes of sources that are not known are passed over. -/
def Access.record : Record Access :=
  Record.iso
    (.cons (.defaulted "gated".toList .boolean false)
      (.cons (.defaulted "require_signed_manifest".toList .boolean true)
        (.single (.defaulted "allowed_source_classes".toList (.lenient SourceClass.codec) []))
        (by decide)) (by decide))
    { toFun := fun (gated, requireSignedManifest, allowedSourceClasses) =>
        ⟨gated, requireSignedManifest, allowedSourceClasses⟩
      invFun := fun a => (a.gated, a.requireSignedManifest, a.allowedSourceClasses)
      left_inv := fun _ => rfl
      right_inv := fun _ => rfl }

/-- The access policy as an object, whose members all have defaults. -/
def Access.codec : Codec Access := .object Access.record

/-- Digests as an object. The BLAKE3 and the SHA-256 are always there, if only as empty
texts; the git object id is left out when it is empty. -/
def Hashes.codec : Codec Hashes :=
  .object <| Record.iso
    (.cons (.required "blake3".toList .text)
      (.cons (.required "sha256".toList .text)
        (.single (.skipped "git_blob_sha1".toList .text []))
        (by decide)) (by decide))
    { toFun := fun (blake3, sha256, gitBlobSha1) => ⟨blake3, sha256, gitBlobSha1⟩
      invFun := fun h => (h.blake3, h.sha256, h.gitBlobSha1)
      left_inv := fun _ => rfl
      right_inv := fun _ => rfl }

/-- The chunking of an artifact as an object with both of its fields. -/
def Chunking.codec : Codec Chunking :=
  .object <| Record.iso
    (.cons (.required "leaf_size".toList u64)
      (.single (.required "leaf_b3_merkle_root".toList .text)) (by decide))
    { toFun := fun (leafSize, leafB3MerkleRoot) => ⟨leafSize, leafB3MerkleRoot⟩
      invFun := fun c => (c.leafSize, c.leafB3MerkleRoot)
      left_inv := fun _ => rfl
      right_inv := fun _ => rfl }

/-- How a source's authentication is declared: a member that may be left out, and then none
is asked. -/
def authField : Member AuthPolicy := .defaulted "auth".toList AuthPolicy.codec .none

/-- What a source of a class says: the members that locate it, and how it authenticates
where it does. -/
abbrev SourceClass.Members : SourceClass → Type
  | huggingface => Text × Text × Text × AuthPolicy
  | httpsMirror => Text × AuthPolicy
  | iroh => Text × List Text × AuthPolicy
  | bittorrentV2 => Text × Option Text × AuthPolicy
  | lanPeer => Text × AuthPolicy
  | localFile => Text

/-- The members of a source of a class, under the names and with the defaults the manifest
format gives them. -/
def SourceClass.record : (c : SourceClass) → Record c.Members
  | huggingface =>
    .cons (.required "repo_id".toList .text)
      (.cons (.required "revision".toList .text)
        (.cons (.required "path".toList .text) (.single authField)
          (by decide)) (by decide)) (by decide)
  | httpsMirror => .cons (.required "url".toList .text) (.single authField) (by decide)
  | iroh =>
    .cons (.required "blob_hash".toList .text)
      (.cons (.defaulted "tickets".toList (.list .text) []) (.single authField)
        (by decide)) (by decide)
  | bittorrentV2 =>
    .cons (.required "magnet_uri".toList .text)
      (.cons (.optional "file_merkle_root_sha256".toList .text) (.single authField)
        (by decide)) (by decide)
  | lanPeer => .cons (.required "url".toList .text) (.single authField) (by decide)
  | localFile => .single (.required "path".toList .text)

/-- A source as its class and what a source of it says. -/
def Source.equiv : (Σ c : SourceClass, c.Members) ≃ Source where
  toFun
    | ⟨.huggingface, (repoId, revision, path, auth)⟩ => .huggingface repoId revision path auth
    | ⟨.httpsMirror, (url, auth)⟩ => .httpsMirror url auth
    | ⟨.iroh, (blobHash, tickets, auth)⟩ => .iroh blobHash tickets auth
    | ⟨.bittorrentV2, (magnetUri, root, auth)⟩ => .bittorrentV2 magnetUri root auth
    | ⟨.lanPeer, (url, auth)⟩ => .lanPeer url auth
    | ⟨.localFile, path⟩ => .localFile path
  invFun
    | .huggingface repoId revision path auth => ⟨.huggingface, (repoId, revision, path, auth)⟩
    | .httpsMirror url auth => ⟨.httpsMirror, (url, auth)⟩
    | .iroh blobHash tickets auth => ⟨.iroh, (blobHash, tickets, auth)⟩
    | .bittorrentV2 magnetUri root auth => ⟨.bittorrentV2, (magnetUri, root, auth)⟩
    | .lanPeer url auth => ⟨.lanPeer, (url, auth)⟩
    | .localFile path => ⟨.localFile, path⟩
  left_inv := by
    rintro ⟨c, p⟩
    cases c <;> rfl
  right_inv := by
    intro s
    cases s <;> rfl

/-- A source, told apart by its type, a member beside those of its class. -/
def Source.codec : Codec Source :=
  (Codec.tagged "type".toList SourceClass.name SourceClass.ofName name_of_ofName
    SourceClass.ofName_name SourceClass.record (by intro c; cases c <;> decide)).iso Source.equiv

/-- An artifact as an object; chunking, format and sources may be absent. -/
def DocumentArtifact.codec : Codec DocumentArtifact :=
  .object <| Record.iso
    (.cons (.required "path".toList .text)
      (.cons (.required "role".toList .text)
        (.cons (.required "size_bytes".toList u64)
          (.cons (.required "hashes".toList Hashes.codec)
            (.cons (.optional "chunking".toList Chunking.codec)
              (.cons (.optional "format".toList .text)
                (.single (.defaulted "sources".toList (.lenient Source.codec) []))
                (by decide)) (by decide)) (by decide)) (by decide)) (by decide)) (by decide))
    { toFun := fun (path, role, sizeBytes, hashes, chunking, format, sources) =>
        ⟨⟨path, sizeBytes, hashes, chunking, sources⟩, role, format⟩
      invFun := fun a =>
        (a.path, a.role, a.sizeBytes, a.hashes, a.chunking, a.format, a.sources)
      left_inv := fun _ => rfl
      right_inv := fun _ => rfl }

/-- The provenance as an object in which nothing is required, so that an empty object is one. -/
def Provenance.codec : Codec Provenance :=
  .object <| Record.iso
    (.cons (.optional "origin".toList .text)
      (.cons (.optional "model_card_ref".toList .text)
        (.cons (.optional "note".toList .text)
          (.cons (.optional "malware_badges_observed".toList .boolean)
            (.single (.optional "generated_at".toList .text))
            (by decide)) (by decide)) (by decide)) (by decide))
    { toFun := fun (origin, modelCardRef, note, malwareBadgesObserved, generatedAt) =>
        ⟨origin, modelCardRef, note, malwareBadgesObserved, generatedAt⟩
      invFun := fun p =>
        (p.origin, p.modelCardRef, p.note, p.malwareBadgesObserved, p.generatedAt)
      left_inv := fun _ => rfl
      right_inv := fun _ => rfl }

/-- A signature as an object with all of its fields, each of them required. -/
def Signature.codec : Codec Signature :=
  .object <| Record.iso
    (.cons (.required "key_id".toList .text)
      (.cons (.required "algorithm".toList SigAlgorithm.codec)
        (.single (.required "signature".toList .text)) (by decide)) (by decide))
    { toFun := fun (keyId, algorithm, signature) => ⟨keyId, algorithm, signature⟩
      invFun := fun s => (s.keyId, s.algorithm, s.signature)
      left_inv := fun _ => rfl
      right_inv := fun _ => rfl }

namespace Document

/-- The members of a manifest that are signed, in the order in which they are written. -/
def bodyRecord : Record DocumentBody :=
  Record.iso
    (.cons (.required "schema_version".toList .text)
      (.cons (.required "manifest_id".toList .text)
        (.cons (.required "publisher".toList Publisher.codec)
          (.cons (.required "model".toList Model.codec)
            (.cons (.required "license".toList License.codec)
              (.cons (.required "access".toList Access.codec)
                (.cons (.required "artifacts".toList (.list DocumentArtifact.codec))
                  (.single (.optional "provenance".toList Provenance.codec))
                  (by decide)) (by decide)) (by decide)) (by decide)) (by decide)) (by decide))
      (by decide))
    { toFun := fun (schemaVersion, manifestId, publisher, model, license, access, artifacts,
          provenance) =>
        ⟨schemaVersion, manifestId, publisher, model, license, access, artifacts, provenance⟩
      invFun := fun d => (d.schemaVersion, d.manifestId, d.publisher, d.model, d.license,
        d.access, d.artifacts, d.provenance)
      left_inv := fun _ => rfl
      right_inv := fun _ => rfl }

/-- The member that is not signed, and that may be missing from an unsigned manifest. -/
def signaturesField : Member (List Signature) :=
  .defaulted "signatures".toList (.list Signature.codec) []

/-- The fields of a manifest: those of its body, and then the signatures. -/
def record : Record Document :=
  Record.iso (.append bodyRecord (.single signaturesField) (by decide))
    { toFun := fun (body, signatures) => ⟨body, signatures⟩
      invFun := fun d => (d.toDocumentBody, d.signatures)
      left_inv := fun _ => rfl
      right_inv := fun _ => rfl }

/-- A manifest as an object; members the format does not know are ignored when it is read. -/
def codec : Codec Document := .object record

/-- Parse a manifest from a JSON document, or fail where a member is missing or has the
wrong type. -/
def fromJson (doc : Json) : Option Document := codec.decode doc

end Document

/-- A document without its signatures, which is what a signer and a verifier put into
canonical form. -/
def withoutSignatures : Json → Json
  | obj fields => obj (fields.filter fun f => f.1 ≠ "signatures".toList)
  | j => j

/-- The canonical form of a document: without its signatures, with sorted members, and compact. -/
def canonicalForm (doc : Json) : Bytes := (withoutSignatures doc).canonical.toVec

/-- What is signed of a manifest: its canonical form without the signatures, as bytes. -/
def Document.canonicalBytes (d : Document) : Bytes := canonicalForm (codec.encode d)

namespace Document

/-- What is left without the signatures. -/
theorem withoutSignatures_encode (d : Document) :
    withoutSignatures (codec.encode d) = obj (bodyRecord.encode d.toDocumentBody) :=
  bodyRecord.without_encode (show signaturesField.name ∉ bodyRecord.names by decide) _
    d.signatures

/-- **What is read under `access`** is the access of the manifest. -/
theorem access_of_fromJson {doc : Json} {d : Document} (h : fromJson doc = some d) :
    ∃ j, pick record.names "access".toList doc = some j ∧ Access.codec.decode j = some d.access := by
  obtain ⟨p, hp, rfl⟩ := Option.map_eq_some_iff.mp (Codec.decode_object h)
  obtain ⟨body, hbody, hrest⟩ := Option.bind_eq_some_iff.mp hp
  obtain ⟨signatures, -, rfl⟩ := Option.map_eq_some_iff.mp hrest
  obtain ⟨q, hq, rfl⟩ := Option.map_eq_some_iff.mp hbody
  obtain ⟨version, id, publisher, model, license, access, artifacts, provenance⟩ := q
  have haccess := (Record.decode_cons.mp (Record.decode_cons.mp (Record.decode_cons.mp
    (Record.decode_cons.mp (Record.decode_cons.mp (Record.decode_cons.mp hq).2).2).2).2).2).1
  exact Option.bind_eq_some_iff.mp haccess

theorem canonicalBytes_eq (d : Document) :
    d.canonicalBytes = (obj (bodyRecord.encode d.toDocumentBody)).canonical.toVec :=
  congrArg (fun j => j.canonical.toVec) (withoutSignatures_encode d)

/-- **The canonical bytes are those of everything but the signatures.** -/
theorem canonicalBytes_inj {d d' : Document} :
    d.canonicalBytes = d'.canonicalBytes ↔ d.toDocumentBody = d'.toDocumentBody := by
  rw [canonicalBytes_eq, canonicalBytes_eq]
  constructor
  · intro h
    exact bodyRecord.injective fun k _ => canonical_obj_inj.mp (toVec_injective h) k
  · intro h
    rw [h]

end Document

end Atlas
