import Atlas.JsonOrder
import Atlas.ManifestSigning
import Atlas.NodeId
import Atlas.Update

/-!
# Release manifests as documents

A release manifest is read leniently: members that this build does not know are skipped,
and members that are missing have defaults. What is verified are the canonical bytes of
the manifest that was read. So a document that a trusted key signed over its own canonical
form is read in full, whatever else it carries; but the signature is only good for
the manifest when the document is plain: what is read is all that is there, at every level
(`release_verifiable_iff`). What `sign` produces is plain, and stays verifiable in any
order of its members.
-/

open Text Json

namespace Atlas

/-! ## The document -/

/-- The fields of a signature; the algorithm is Ed25519 if it is not said. -/
def UpdateSignature.record : Record UpdateSignature :=
  Record.iso
    (.cons (.required "key_id".toList .text)
      (.cons (.defaulted "algorithm".toList .text "ed25519".toList)
        (.single (.required "value".toList .text)) (by decide)) (by decide))
    { toFun := fun (keyId, algorithm, value) => ⟨keyId, algorithm, value⟩
      invFun := fun s => (s.keyId, s.algorithm, s.value)
      left_inv := fun _ => rfl
      right_inv := fun _ => rfl }

/-- A signature of a release manifest as an object, as the published document has it, after
the body. -/
def UpdateSignature.codec : Codec UpdateSignature := .object record

/-- The fields of a build; its flavor, its size and a signature of its own may be left out. -/
def PlatformAsset.record : Record PlatformAsset :=
  Record.iso
    (.cons (.required "os".toList .text)
      (.cons (.required "arch".toList .text)
        (.cons (.defaulted "flavor".toList .text [])
          (.cons (.required "name".toList .text)
            (.cons (.required "url".toList .text)
              (.cons (.required "sha256".toList .text)
                (.cons (.defaulted "size".toList u64 0)
                  (.single (.defaulted "signature".toList .text []))
                  (by decide)) (by decide)) (by decide)) (by decide)) (by decide))
        (by decide)) (by decide))
    { toFun := fun (os, arch, flavor, name, url, sha256, size, signature) =>
        ⟨os, arch, flavor, name, url, sha256, size, signature⟩
      invFun := fun a =>
        (a.os, a.arch, a.flavor, a.name, a.url, a.sha256, a.size, a.signature)
      left_inv := fun _ => rfl
      right_inv := fun _ => rfl }

/-- A build as an object, with its members under the names the source gives them. -/
def PlatformAsset.codec : Codec PlatformAsset := .object record

/-- The fields of an application's release; the version and the builds are required. -/
def AppRelease.record : Record AppRelease :=
  Record.iso
    (.cons (.required "app".toList .text)
      (.cons (.required "version".toList .text)
        (.cons (.defaulted "min_supported".toList .text [])
          (.cons (.defaulted "notes_url".toList .text [])
            (.single (.required "assets".toList (.list PlatformAsset.codec)))
            (by decide)) (by decide)) (by decide)) (by decide))
    { toFun := fun (app, version, minSupported, notesUrl, assets) =>
        ⟨app, version, minSupported, notesUrl, assets⟩
      invFun := fun r => (r.app, r.version, r.minSupported, r.notesUrl, r.assets)
      left_inv := fun _ => rfl
      right_inv := fun _ => rfl }

/-- A release as an object, with the builds of its app in a list. -/
def AppRelease.codec : Codec AppRelease := .object record

namespace ReleaseManifest

/-- A signed 64-bit integer, as a manifest has its instants. -/
def instant : Codec ℤ := .signed (-2 ^ 63) (2 ^ 63)

/-- The members of a release manifest that are signed, in the order in which they are
printed before they are canonical. -/
def bodyRecord : Record (ℕ × Text × ℤ × ℤ × List AppRelease) :=
  .cons (.required "schema".toList (.unsigned (2 ^ 32)))
    (.cons (.required "channel".toList .text)
      (.cons (.defaulted "generated_at".toList instant 0)
        (.cons (.required "expires_at".toList instant)
          (.single (.required "apps".toList (.list AppRelease.codec)))
          (by decide)) (by decide)) (by decide)) (by decide)

/-- The member that is not signed, the signatures themselves, which may be missing. -/
def signaturesField : Member (List UpdateSignature) :=
  .defaulted "signatures".toList (.list UpdateSignature.codec) []

/-- The fields of a release manifest: those that are signed, and then the signatures. -/
def record : Record ReleaseManifest :=
  Record.iso (.append bodyRecord (.single signaturesField) (by decide))
    { toFun := fun ((schema, channel, generatedAt, expiresAt, apps), signatures) =>
        ⟨schema, channel, generatedAt, expiresAt, apps, signatures⟩
      invFun := fun m =>
        ((m.schema, m.channel, m.generatedAt, m.expiresAt, m.apps), m.signatures)
      left_inv := fun _ => rfl
      right_inv := fun _ => rfl }

/-- A release manifest as an object; members it does not know are ignored. -/
def codec : Codec ReleaseManifest := .object record

/-- The canonical form of a document: without its signatures, with sorted members, and compact. -/
def canonicalForm (doc : Json.Tree) : Bytes :=
  (without "signatures".toList doc).canonical.toVec

/-- What is read of a document is all that is there: up to the signatures, it is an
object with the members this build writes and no others, at every level. -/
def plain (doc : Json.Tree) : Bool := bodyRecord.plain "signatures".toList doc

end ReleaseManifest

/-! ## Values as documents -/

mutual

/-- A value as a document, which is how a serialised value is printed. -/
def Json.tree : Json → Json.Tree
  | .number n => num (ofInt n)
  | .string s => str s
  | .array items => arr (treeItems items)
  | .object fields => obj (treeFields fields)

/-- The syntax trees of some items, one for each and in their order. -/
def treeItems : List Json → List Json.Tree
  | [] => []
  | item :: items => item.tree :: treeItems items

/-- The syntax trees of some fields, in their order; this is the recursion over fields that
the conversion of an object needs. -/
def treeFields : List (Text × Json) → List (Text × Json.Tree)
  | [] => []
  | (key, value) :: fields => (key, value.tree) :: treeFields fields

end

theorem treeItems_eq (items : List Json) : treeItems items = items.map Json.tree := by
  induction items with
  | nil => rfl
  | cons item items ih => rw [treeItems, ih, List.map_cons]

theorem UpdateSignature.canonical_tree (s : UpdateSignature) :
    s.toValue.tree.canonical = (codec.encode s).canonical := by
  have hsorted : ["algorithm".toList, "key_id".toList, "value".toList].Nodup := by decide
  show (obj [("algorithm".toList, str s.algorithm), ("key_id".toList, str s.keyId),
      ("value".toList, str s.value)]).canonical =
    (obj [("key_id".toList, str s.keyId), ("algorithm".toList, str s.algorithm),
      ("value".toList, str s.value)]).canonical
  refine canonical_obj_of_mem hsorted (show record.names.Nodup by decide) fun f => ?_
  simp only [List.map_cons, List.map_nil, List.mem_cons]
  exact iff_of_eq (by ac_rfl)

theorem PlatformAsset.canonical_tree (a : PlatformAsset) :
    a.toValue.tree.canonical = (codec.encode a).canonical := by
  have hsorted : ["arch".toList, "flavor".toList, "name".toList, "os".toList, "sha256".toList,
      "signature".toList, "size".toList, "url".toList].Nodup := by
    decide
  show (obj [("arch".toList, str a.arch), ("flavor".toList, str a.flavor),
      ("name".toList, str a.name), ("os".toList, str a.os), ("sha256".toList, str a.sha256),
      ("signature".toList, str a.signature), ("size".toList, num (ofNat a.size)),
      ("url".toList, str a.url)]).canonical =
    (obj [("os".toList, str a.os), ("arch".toList, str a.arch),
      ("flavor".toList, str a.flavor), ("name".toList, str a.name), ("url".toList, str a.url),
      ("sha256".toList, str a.sha256), ("size".toList, num (ofNat a.size)),
      ("signature".toList, str a.signature)]).canonical
  refine canonical_obj_of_mem hsorted (show record.names.Nodup by decide) fun f => ?_
  simp only [List.map_cons, List.map_nil, List.mem_cons]
  exact iff_of_eq (by ac_rfl)

/-- The values of a list, as documents. -/
theorem canonical_treeItems {α : Type} {toValue : α → Json} {c : Codec α}
    (h : ∀ a, (toValue a).tree.canonical = (c.encode a).canonical) (as : List α) :
    (arr (treeItems (as.map toValue))).canonical = (c.list.encode as).canonical := by
  refine canonical_arr_inj.mpr ?_
  rw [treeItems_eq, List.map_map, List.map_map, List.map_map]
  exact List.map_congr_left fun a _ => h a

theorem AppRelease.canonical_tree (r : AppRelease) :
    r.toValue.tree.canonical = (codec.encode r).canonical := by
  have hsorted : ["app".toList, "assets".toList, "min_supported".toList, "notes_url".toList,
      "version".toList].Nodup := by
    decide
  show (obj [("app".toList, str r.app),
      ("assets".toList, arr (treeItems (r.assets.map PlatformAsset.toValue))),
      ("min_supported".toList, str r.minSupported), ("notes_url".toList, str r.notesUrl),
      ("version".toList, str r.version)]).canonical =
    (obj [("app".toList, str r.app), ("version".toList, str r.version),
      ("min_supported".toList, str r.minSupported), ("notes_url".toList, str r.notesUrl),
      ("assets".toList, (Codec.list PlatformAsset.codec).encode r.assets)]).canonical
  refine canonical_obj_of_mem hsorted (show record.names.Nodup by decide) fun f => ?_
  simp only [List.map_cons, List.map_nil, List.mem_cons, Prod.map_apply,
    canonical_treeItems PlatformAsset.canonical_tree]
  exact iff_of_eq (by ac_rfl)

namespace ReleaseManifest

/-- The members that are signed, put together in their order. -/
def body (m : ReleaseManifest) : ℕ × Text × ℤ × ℤ × List AppRelease :=
  (m.schema, m.channel, m.generatedAt, m.expiresAt, m.apps)

/-- **What is signed of a manifest**, as a document. -/
theorem canonical_tree_remove (m : ReleaseManifest) :
    (m.toValue.remove "signatures".toList).tree.canonical =
      (obj (bodyRecord.encode m.body)).canonical := by
  have hsorted : ["apps".toList, "channel".toList, "expires_at".toList, "generated_at".toList,
      "schema".toList].Nodup := by
    decide
  show (obj [("apps".toList, arr (treeItems (m.apps.map AppRelease.toValue))),
      ("channel".toList, str m.channel), ("expires_at".toList, num (ofInt m.expiresAt)),
      ("generated_at".toList, num (ofInt m.generatedAt)),
      ("schema".toList, num (ofInt m.schema))]).canonical =
    (obj [("schema".toList, num (ofNat m.schema)), ("channel".toList, str m.channel),
      ("generated_at".toList, num (ofInt m.generatedAt)),
      ("expires_at".toList, num (ofInt m.expiresAt)),
      ("apps".toList, (Codec.list AppRelease.codec).encode m.apps)]).canonical
  refine canonical_obj_of_mem hsorted (show bodyRecord.names.Nodup by decide) fun f => ?_
  rw [show ofInt m.schema = ofNat m.schema from rfl]
  simp only [List.map_cons, List.map_nil, List.mem_cons, Prod.map_apply,
    canonical_treeItems AppRelease.canonical_tree]
  exact iff_of_eq (by ac_rfl)

end ReleaseManifest

/-! ## Documents of a manifest -/

section Documents

variable {fields : List (Text × Json.Tree)} {name : Text} {j : Json.Tree}

/-- A member with a default: it is written, or it is missing and is the default. -/
def SaysOr (fields : List (Text × Json.Tree)) (name : Text) (j : Json.Tree)
    (isDefault : Prop) : Prop :=
  member name fields = some j ∨ member name fields = none ∧ isDefault

/-- An object that has each of some names at most once, and may have any others. -/
def ObjectWith (names : List Text) (P : List (Text × Json.Tree) → Prop) (j : Json.Tree) :
    Prop :=
  ∃ fields, j = obj fields ∧ unrepeated names fields = true ∧ P fields

/-- The fields say what the signature is; the algorithm may be left out if it is Ed25519. -/
structure UpdateSignature.WrittenAs (s : UpdateSignature)
    (fields : List (Text × Json.Tree)) : Prop where
  keyId : member "key_id".toList fields = some (str s.keyId)
  algorithm : SaysOr fields "algorithm".toList (str s.algorithm)
    (s.algorithm = "ed25519".toList)
  value : member "value".toList fields = some (str s.value)

/-- The fields say what the build is; what is empty may be left out. -/
structure PlatformAsset.WrittenAs (a : PlatformAsset)
    (fields : List (Text × Json.Tree)) : Prop where
  os : member "os".toList fields = some (str a.os)
  arch : member "arch".toList fields = some (str a.arch)
  flavor : SaysOr fields "flavor".toList (str a.flavor) (a.flavor = [])
  name : member "name".toList fields = some (str a.name)
  url : member "url".toList fields = some (str a.url)
  sha256 : member "sha256".toList fields = some (str a.sha256)
  size : SaysOr fields "size".toList (num (ofNat a.size)) (a.size = 0)
  size_lt : a.size < 2 ^ 64
  signature : SaysOr fields "signature".toList (str a.signature) (a.signature = [])

/-- The fields say what the release is; what is empty may be left out. -/
structure AppRelease.WrittenAs (r : AppRelease) (fields : List (Text × Json.Tree)) : Prop where
  app : member "app".toList fields = some (str r.app)
  version : member "version".toList fields = some (str r.version)
  minSupported : SaysOr fields "min_supported".toList (str r.minSupported)
    (r.minSupported = [])
  notesUrl : SaysOr fields "notes_url".toList (str r.notesUrl) (r.notesUrl = [])
  assets : ∃ items, member "assets".toList fields = some (arr items) ∧
    List.Forall₂ (fun a => ObjectWith PlatformAsset.record.names a.WrittenAs) r.assets items

/-- An instant that fits 64 bits, as every time in milliseconds has to. -/
abbrev IsInstant (i : ℤ) : Prop := -2 ^ 63 ≤ i ∧ i < 2 ^ 63

/-- The fields say what the manifest is, with numbers that fit into their types. -/
structure ReleaseManifest.WrittenAs (m : ReleaseManifest)
    (fields : List (Text × Json.Tree)) : Prop where
  schema : member "schema".toList fields = some (num (ofNat m.schema))
  schema_lt : m.schema < 2 ^ 32
  channel : member "channel".toList fields = some (str m.channel)
  generatedAt : SaysOr fields "generated_at".toList (num (ofInt m.generatedAt))
    (m.generatedAt = 0)
  generatedAt_fits : IsInstant m.generatedAt
  expiresAt : member "expires_at".toList fields = some (num (ofInt m.expiresAt))
  expiresAt_fits : IsInstant m.expiresAt
  apps : ∃ items, member "apps".toList fields = some (arr items) ∧
    List.Forall₂ (fun r => ObjectWith AppRelease.record.names r.WrittenAs) m.apps items
  signatures : ∃ items, SaysOr fields "signatures".toList (arr items) (m.signatures = []) ∧
    (member "signatures".toList fields = some (arr items) →
      List.Forall₂ (fun s => ObjectWith UpdateSignature.record.names s.WrittenAs)
        m.signatures items)

/-- **A document of a release manifest**: it says the manifest's members, leaves out what
has its default as it likes, and may carry members that nobody knows, at any level. -/
def ReleaseManifest.IsDocument (m : ReleaseManifest) (doc : Json.Tree) : Prop :=
  ObjectWith record.names m.WrittenAs doc

variable {α : Type} {c : Codec α} {a : α}

theorem decode_required (h : member name fields = some j) (hj : c.decode j = some a) :
    (Member.required name c).decode (member name fields) = some a := by
  rw [h]
  exact hj

theorem decode_defaulted {default : α} (h : SaysOr fields name j (a = default))
    (hj : c.decode j = some a) :
    (Member.defaulted name c default).decode (member name fields) = some a := by
  obtain h | ⟨h, rfl⟩ := h
  · rw [h]
    exact hj
  · rw [h]
    rfl

theorem decode_list_of_forall₂ {P : α → Json.Tree → Prop}
    (hP : ∀ {a j}, P a j → c.decode j = some a) {as : List α} {items : List Json.Tree} (h : List.Forall₂ P as items) :
    c.list.decode (arr items) = some as := by
  show items.mapM c.decode = some as
  induction h with
  | nil => rfl
  | cons hhead _ ih =>
    rw [List.mapM_cons, hP hhead, ih]
    rfl

theorem decode_objectWith {r : Record α} {P : List (Text × Json.Tree) → Prop}
    (hP : ∀ {fields}, P fields → r.decode (member · fields) = some a)
    (h : ObjectWith r.names P j) : (Codec.object r).decode j = some a := by
  obtain ⟨fields, rfl, hnames, hfields⟩ := h
  show (if unrepeated r.names fields then r.decode (member · fields) else none) = _
  rw [hnames, if_pos rfl]
  exact hP hfields

theorem UpdateSignature.decode_of_written {s : UpdateSignature}
    (h : ObjectWith record.names s.WrittenAs j) : codec.decode j = some s := by
  refine decode_objectWith (fun {fields} h => ?_) h
  refine (congrArg (Option.map _) (Record.decode_cons.mpr ⟨?_, Record.decode_cons.mpr
    ⟨?_, ?_⟩⟩)).trans rfl
  · exact decode_required h.keyId rfl
  · exact decode_defaulted h.algorithm rfl
  · exact decode_required h.value rfl

theorem PlatformAsset.decode_of_written {a : PlatformAsset}
    (h : ObjectWith record.names a.WrittenAs j) : codec.decode j = some a := by
  refine decode_objectWith (fun {fields} h => ?_) h
  refine (congrArg (Option.map _) (Record.decode_cons.mpr ⟨?_, Record.decode_cons.mpr
    ⟨?_, Record.decode_cons.mpr ⟨?_, Record.decode_cons.mpr ⟨?_, Record.decode_cons.mpr
      ⟨?_, Record.decode_cons.mpr ⟨?_, Record.decode_cons.mpr ⟨?_, ?_⟩⟩⟩⟩⟩⟩⟩)).trans rfl
  · exact decode_required h.os rfl
  · exact decode_required h.arch rfl
  · exact decode_defaulted h.flavor rfl
  · exact decode_required h.name rfl
  · exact decode_required h.url rfl
  · exact decode_required h.sha256 rfl
  · exact decode_defaulted h.size (Codec.natOf_ofNat h.size_lt)
  · exact decode_defaulted h.signature rfl

theorem AppRelease.decode_of_written {r : AppRelease}
    (h : ObjectWith record.names r.WrittenAs j) : codec.decode j = some r := by
  refine decode_objectWith (fun {fields} h => ?_) h
  obtain ⟨items, hmember, hassets⟩ := h.assets
  refine (congrArg (Option.map _) (Record.decode_cons.mpr ⟨?_, Record.decode_cons.mpr
    ⟨?_, Record.decode_cons.mpr ⟨?_, Record.decode_cons.mpr ⟨?_, ?_⟩⟩⟩⟩)).trans rfl
  · exact decode_required h.app rfl
  · exact decode_required h.version rfl
  · exact decode_defaulted h.minSupported rfl
  · exact decode_defaulted h.notesUrl rfl
  · exact decode_required hmember (decode_list_of_forall₂ PlatformAsset.decode_of_written hassets)

/-- **A document is read as the manifest it says**, whatever else it carries and leaves out. -/
theorem ReleaseManifest.decode_of_isDocument {m : ReleaseManifest} (h : m.IsDocument j) :
    codec.decode j = some m := by
  refine decode_objectWith (fun {fields} h => ?_) h
  obtain ⟨items, hmember, happs⟩ := h.apps
  have hbody : bodyRecord.decode (member · fields) = some m.body := by
    refine Record.decode_cons.mpr ⟨?_, Record.decode_cons.mpr ⟨?_, Record.decode_cons.mpr
      ⟨?_, Record.decode_cons.mpr ⟨?_, ?_⟩⟩⟩⟩
    · exact decode_required h.schema (Codec.natOf_ofNat h.schema_lt)
    · exact decode_required h.channel rfl
    · exact decode_defaulted h.generatedAt
        (Codec.intOf_ofInt h.generatedAt_fits.1 h.generatedAt_fits.2)
    · exact decode_required h.expiresAt (Codec.intOf_ofInt h.expiresAt_fits.1 h.expiresAt_fits.2)
    · exact decode_required hmember (decode_list_of_forall₂ AppRelease.decode_of_written happs)
  have hsignatures : signaturesField.decode (member "signatures".toList fields) =
      some m.signatures := by
    obtain ⟨items, hsays, hall⟩ := h.signatures
    obtain hwritten | ⟨hmissing, hnil⟩ := hsays
    · rw [hwritten]
      exact decode_list_of_forall₂ UpdateSignature.decode_of_written (hall hwritten)
    · rw [hmissing, hnil]
      rfl
  show ((bodyRecord.decode (member · fields)).bind fun a =>
    (signaturesField.decode (member "signatures".toList fields)).map (Prod.mk a)).map _ = some m
  rw [hbody, hsignatures]
  rfl

end Documents

/-! ## Reading and signing -/

/-- What a release is read and signed with: a JSON reader, a signature scheme, and an order
of versions. -/
structure ReleaseReader where
  /-- Read a JSON document. -/
  parse : Bytes → Except Text Json.Tree
  /-- What is said of a document of the wrong shape. -/
  shape : Json.Tree → Text
  scheme : SigningScheme
  Version : Type
  parseVersion : Text → Option Version
  versionGt : Version → Version → Bool
  sha256 : Bytes → Bytes

/-- The libraries of the updater, as they are built from the reader. -/
def ReleaseReader.libs (R : ReleaseReader) : UpdateLibs where
  fromJson bytes := match R.parse bytes with
    | .error e => .error e
    | .ok doc => match ReleaseManifest.codec.decode doc with
      | some m => .ok m
      | none => .error (R.shape doc)
  toVec value := value.tree.canonical.toVec
  Version := R.Version
  parseVersion := R.parseVersion
  versionGt := R.versionGt
  scheme := R.scheme.toSignatureScheme
  sha256 := R.sha256

namespace ReleaseManifest

variable {R : ReleaseReader}

variable (R) in
/-- Sign in place. Signing again with the same key is idempotent. -/
def sign (k : KeyPair) (m : ReleaseManifest) : ReleaseManifest :=
  let keyId := k.keyId R.scheme
  let signatures := m.signatures.filter fun s => s.keyId ≠ keyId
  let bytes := { m with signatures := signatures }.canonicalBytes R.libs
  let sig := R.scheme.sign k.secret bytes
  { m with signatures := signatures ++ [⟨keyId, "ed25519".toList, R.scheme.base64Encode sig⟩] }

theorem canonicalBytes_libs (m : ReleaseManifest) : m.canonicalBytes R.libs =
    (m.toValue.remove "signatures".toList).tree.canonical.toVec := rfl

theorem canonicalBytes_eq (m : ReleaseManifest) :
    m.canonicalBytes R.libs = (obj (bodyRecord.encode m.body)).canonical.toVec := by
  rw [canonicalBytes_libs, canonical_tree_remove]

/-- **Reading keeps the canonical form** of a document exactly if it is plain. -/
theorem canonicalBytes_eq_iff {m : ReleaseManifest} {doc : Json.Tree}
    (h : codec.decode doc = some m) :
    m.canonicalBytes R.libs = canonicalForm doc ↔ plain doc = true := by
  have hname : signaturesField.name ∉ bodyRecord.names := by decide
  have hread := Record.encode_eq_without_iff hname h
  rw [canonicalBytes_eq]
  refine toVec_injective.eq_iff.trans ?_
  exact hread

/-- A manifest whose numbers fit where they are read; only such a manifest survives printing
and reading. -/
structure Fits (m : ReleaseManifest) : Prop where
  schema : m.schema < 2 ^ 32
  generatedAt : IsInstant m.generatedAt
  expiresAt : IsInstant m.expiresAt
  sizes : ∀ r ∈ m.apps, ∀ a ∈ r.assets, a.size < 2 ^ 64

/-- Signatures fit. -/
theorem Fits.withSignatures {m : ReleaseManifest} (h : m.Fits)
    (signatures : List UpdateSignature) : Fits { m with signatures := signatures } :=
  ⟨h.schema, h.generatedAt, h.expiresAt, h.sizes⟩

/-- Each value is written as a document of its own. -/
theorem forall₂_encode {α : Type} {P : α → Json.Tree → Prop} {c : Codec α} {as : List α}
    (h : ∀ a ∈ as, P a (c.encode a)) : List.Forall₂ P as (as.map c.encode) := by
  induction as with
  | nil => exact .nil
  | cons a as ih =>
    exact .cons (h a List.mem_cons_self) (ih fun a' ha' => h a' (List.mem_cons_of_mem a ha'))

/-- **What is written of a manifest is a document of it.** -/
theorem isDocument_encode {m : ReleaseManifest} (h : m.Fits) :
    m.IsDocument (codec.encode m) := by
  have hsignature : ∀ s : UpdateSignature,
      ObjectWith UpdateSignature.record.names s.WrittenAs (UpdateSignature.codec.encode s) :=
    fun s => ⟨_, rfl, by rfl, ⟨rfl, Or.inl rfl, rfl⟩⟩
  have hasset : ∀ a : PlatformAsset, a.size < 2 ^ 64 →
      ObjectWith PlatformAsset.record.names a.WrittenAs (PlatformAsset.codec.encode a) :=
    fun a hsize => ⟨_, rfl, by rfl,
      ⟨rfl, rfl, Or.inl rfl, rfl, rfl, rfl, Or.inl rfl, hsize, Or.inl rfl⟩⟩
  have hrelease : ∀ r : AppRelease, (∀ a ∈ r.assets, a.size < 2 ^ 64) →
      ObjectWith AppRelease.record.names r.WrittenAs (AppRelease.codec.encode r) :=
    fun r hsizes => ⟨_, rfl, by rfl, ⟨rfl, rfl, Or.inl rfl, Or.inl rfl,
      ⟨_, rfl, forall₂_encode fun a ha => hasset a (hsizes a ha)⟩⟩⟩
  exact ⟨_, rfl, by rfl, ⟨rfl, h.schema, rfl, Or.inl rfl, h.generatedAt, rfl, h.expiresAt,
    ⟨_, rfl, forall₂_encode fun r hr => hrelease r (h.sizes r hr)⟩,
    ⟨_, Or.inl rfl, fun _ => forall₂_encode fun s _ => hsignature s⟩⟩⟩

/-- What a document says is up to the members the build knows. -/
theorem WrittenAs.congr {m : ReleaseManifest} {fields fields' : List (Text × Json.Tree)}
    (h : m.WrittenAs fields) (hmember : ∀ k ∈ record.names, member k fields' = member k fields) :
    m.WrittenAs fields' := by
  have hsays : ∀ {k j isDefault}, k ∈ record.names → SaysOr fields k j isDefault →
      SaysOr fields' k j isDefault := by
    intro k j isDefault hk hsays
    unfold SaysOr
    rw [hmember k hk]
    exact hsays
  obtain ⟨apps, happs, hreleases⟩ := h.apps
  obtain ⟨items, hitems, hsignatures⟩ := h.signatures
  exact {
    schema := (hmember _ (by decide)).trans h.schema
    schema_lt := h.schema_lt
    channel := (hmember _ (by decide)).trans h.channel
    generatedAt := hsays (by decide) h.generatedAt
    generatedAt_fits := h.generatedAt_fits
    expiresAt := (hmember _ (by decide)).trans h.expiresAt
    expiresAt_fits := h.expiresAt_fits
    apps := ⟨apps, (hmember _ (by decide)).trans happs, hreleases⟩
    signatures := ⟨items, hsays (by decide) hitems, fun hwritten =>
      hsignatures ((hmember _ (by decide)).symm.trans hwritten)⟩ }

/-- No object that is written has a name twice. -/
theorem unique_encode (m : ReleaseManifest) : (codec.encode m).unique = true := by
  have hlist : ∀ {α : Type} {c : Codec α} (as : List α),
      (∀ a ∈ as, (c.encode a).unique = true) → (arr (as.map c.encode)).unique = true :=
    fun as h => unique_arr.mpr (List.forall_mem_map.mpr h)
  have hsignature : ∀ s : UpdateSignature, (UpdateSignature.codec.encode s).unique = true :=
    fun s => rfl
  have hasset : ∀ a : PlatformAsset, (PlatformAsset.codec.encode a).unique = true :=
    fun a => rfl
  have hrelease : ∀ r : AppRelease, (AppRelease.codec.encode r).unique = true := by
    intro r
    refine unique_obj.mpr ⟨show AppRelease.record.names.Nodup by decide, ?_⟩
    show ∀ f ∈ [("app".toList, str r.app), ("version".toList, str r.version),
      ("min_supported".toList, str r.minSupported), ("notes_url".toList, str r.notesUrl),
      ("assets".toList, arr (r.assets.map PlatformAsset.codec.encode))], f.2.unique = true
    simp only [List.forall_mem_cons]
    exact ⟨rfl, rfl, rfl, rfl, hlist _ fun a _ => hasset a, List.forall_mem_nil _⟩
  refine unique_obj.mpr ⟨show record.names.Nodup by decide, ?_⟩
  show ∀ f ∈ [("schema".toList, num (ofNat m.schema)), ("channel".toList, str m.channel),
    ("generated_at".toList, num (ofInt m.generatedAt)),
    ("expires_at".toList, num (ofInt m.expiresAt)),
    ("apps".toList, arr (m.apps.map AppRelease.codec.encode)),
    ("signatures".toList, arr (m.signatures.map UpdateSignature.codec.encode))],
    f.2.unique = true
  simp only [List.forall_mem_cons]
  exact ⟨rfl, rfl, rfl, rfl, hlist _ fun r _ => hrelease r, hlist _ fun s _ => hsignature s,
    List.forall_mem_nil _⟩

section OrderFree

open Json.Codec Json.Member Json.Record

theorem codec_orderFree : codec.OrderFree := by
  have htext : ∀ name, (Member.required name Codec.text).OrderFree :=
    fun name => required_orderFree name text_orderFree
  have hdefault : ∀ name default, (Member.defaulted name Codec.text default).OrderFree :=
    fun name => defaulted_orderFree name text_orderFree
  have hsignature : UpdateSignature.codec.OrderFree :=
    object_orderFree (.iso (.cons (htext _) (.cons (hdefault _ _) (single_orderFree (htext _)))) _)
  have hasset : PlatformAsset.codec.OrderFree :=
    object_orderFree (.iso (.cons (htext _) (.cons (htext _) (.cons (hdefault _ _)
      (.cons (htext _) (.cons (htext _) (.cons (htext _)
        (.cons (defaulted_orderFree _ (unsigned_orderFree _) _)
          (single_orderFree (hdefault _ _))))))))) _)
  have hrelease : AppRelease.codec.OrderFree :=
    object_orderFree (.iso (.cons (htext _) (.cons (htext _) (.cons (hdefault _ _)
      (.cons (hdefault _ _) (single_orderFree (required_orderFree _ hasset.list)))))) _)
  have hinstant : instant.OrderFree := signed_orderFree _ _
  have hbody : bodyRecord.OrderFree :=
    .cons (required_orderFree _ (unsigned_orderFree _)) (.cons (htext _)
      (.cons (defaulted_orderFree _ hinstant _) (.cons (required_orderFree _ hinstant)
        (single_orderFree (required_orderFree _ hrelease.list)))))
  exact object_orderFree (.iso (hbody.append
    (single_orderFree (defaulted_orderFree _ hsignature.list _)) _) _)

end OrderFree

/-! ## What is signed is trusted -/

theorem normKey_keyId (S : SigningScheme) (k : KeyPair) :
    normKey (k.keyId S) = k.publicHex S := by
  have hhex : ∀ c ∈ k.publicHex S, isAsciiHexdigit c = true :=
    List.all_eq_true.mp (all_isAsciiHexdigit_hexEncode _)
  have hwhite : ∀ c ∈ k.keyId S, isWhitespace c = false := by
    intro c hc
    obtain hprefixed | hdigit := List.mem_append.mp hc
    · have hall : ∀ c ∈ keyIdPrefix, isWhitespace c = false := forall_mem_of_all (by decide)
      exact hall c hprefixed
    · exact ((hexDecode_of_toLower (toAsciiLowercase_hexEncode _)).2 c hdigit).2
  have hnext : ¬ keyIdPrefix.isPrefixOf (k.publicHex S) = true := by
    intro h
    obtain ⟨rest, hrest⟩ := List.isPrefixOf_iff_prefix.mp h
    have hcolon : ':' ∈ k.publicHex S := hrest ▸ List.mem_append_left rest (by decide)
    exact absurd (hhex ':' hcolon) (by decide)
  unfold normKey
  rw [trim_eq_self hwhite]
  have hdrop : (k.keyId S).drop keyIdPrefix.length = k.publicHex S := List.drop_left
  have hstart : keyIdPrefix.isPrefixOf (k.keyId S) = true :=
    List.isPrefixOf_iff_prefix.mpr (List.prefix_append _ _)
  show (trimStartMatches keyIdPrefix (k.keyId S)).toAsciiLowercase = _
  rw [trimStartMatches, if_pos ⟨by decide, hstart⟩, hdrop, trimStartMatches,
    if_neg fun h => hnext h.2]
  exact toAsciiLowercase_hexEncode _

/-- **A key's own signature is trusted** by those who trust the key. -/
theorem signatureIsTrusted_sign {S : SigningScheme} (hS : S.Correct) {L : UpdateLibs}
    (hscheme : L.scheme = S.toSignatureScheme) {k : KeyPair} {trusted : List Text}
    (htrusted : ∃ t ∈ trusted, normKey t = k.publicHex S) (bytes : Bytes) :
    signatureIsTrusted L bytes
      ⟨k.keyId S, "ed25519".toList, S.base64Encode (S.sign k.secret bytes)⟩ trusted = true := by
  obtain ⟨t, ht, hnorm⟩ := htrusted
  have hany : trusted.any (fun t => normKey t = normKey (k.keyId S)) = true :=
    List.any_eq_true.mpr ⟨t, ht, decide_eq_true (hnorm.trans (normKey_keyId S k).symm)⟩
  have hkey : hexDecode (k.publicHex S) = some (S.publicKey k.secret) := hexDecode_hexEncode _
  unfold signatureIsTrusted
  dsimp only
  rw [eqIgnoreAsciiCase_refl, hany, normKey_keyId, hkey, hscheme]
  exact hS.accepts k.secret bytes

/-- The document of a manifest is signed over some bytes: a trusted key's signature is good
for them, and none of its signatures is a trusted key's over anything else. -/
structure SignedOver (L : UpdateLibs) (m : ReleaseManifest) (form : Bytes)
    (trusted : List Text) : Prop where
  valid : ∃ sig ∈ m.signatures, signatureIsTrusted L form sig trusted = true
  own : ∀ sig ∈ m.signatures, ∀ message,
    signatureIsTrusted L message sig trusted = true → message = form

theorem fromJson_of_decode {m : ReleaseManifest} {doc : Json.Tree} {bytes : Bytes}
    (hparse : R.parse bytes = .ok doc) (h : codec.decode doc = some m) :
    R.libs.fromJson bytes = .ok m := by
  show (match R.parse bytes with
    | .error e => .error e
    | .ok doc => match codec.decode doc with
      | some m => .ok m
      | none => .error (R.shape doc)) = Except.ok m
  rw [hparse]
  dsimp only
  rw [h]

/-- **What is signed is verified**, whatever signatures were there. -/
theorem isSignedByTrusted_sign (hS : R.scheme.Correct) {k : KeyPair} {trusted : List Text}
    (htrusted : ∃ t ∈ trusted, normKey t = k.publicHex R.scheme) (m : ReleaseManifest) :
    (m.sign R k).isSignedByTrusted R.libs trusted = true := by
  have hbytes : (m.sign R k).canonicalBytes R.libs = ReleaseManifest.canonicalBytes R.libs
      { m with signatures := m.signatures.filter fun s => s.keyId ≠ k.keyId R.scheme } := by
    rw [canonicalBytes_eq, canonicalBytes_eq]
    rfl
  refine List.any_eq_true.mpr ⟨_, List.mem_append_right _ List.mem_cons_self, ?_⟩
  rw [hbytes]
  exact signatureIsTrusted_sign hS rfl htrusted _

/-- **What is verified of a release that was read.** A document of a manifest is read as the
manifest; and if trusted keys signed it over its canonical form, it is verified exactly
if it is plain. What a trusted key signed in place stays verifiable in any order of
its members. -/
theorem release_verifiable_iff (hS : R.scheme.Correct) (trusted : List Text) :
    (∀ (m : ReleaseManifest) (doc : Json.Tree) (bytes : Bytes), m.IsDocument doc →
      R.parse bytes = .ok doc → m.SignedOver R.libs (canonicalForm doc) trusted →
        R.libs.fromJson bytes = .ok m ∧
          (m.isSignedByTrusted R.libs trusted = true ↔ plain doc = true)) ∧
      ∀ (k : KeyPair) (m : ReleaseManifest) (doc : Json.Tree) (bytes : Bytes), m.Fits →
        (∃ t ∈ trusted, normKey t = k.publicHex R.scheme) →
          Reorders (codec.encode (m.sign R k)) doc → R.parse bytes = .ok doc →
            R.libs.fromJson bytes = .ok (m.sign R k) ∧
              (m.sign R k).isSignedByTrusted R.libs trusted = true := by
  constructor
  · intro m doc bytes hdoc hparse hsigned
    have hread := decode_of_isDocument hdoc
    refine ⟨fromJson_of_decode hparse hread, ?_⟩
    rw [← canonicalBytes_eq_iff (R := R) hread]
    constructor
    · intro hverified
      obtain ⟨sig, hsig, htrusted⟩ := List.any_eq_true.mp hverified
      exact hsigned.own sig hsig _ htrusted
    · intro heq
      obtain ⟨sig, hsig, htrusted⟩ := hsigned.valid
      exact List.any_eq_true.mpr ⟨sig, hsig, heq ▸ htrusted⟩
  · intro k m doc bytes hfits htrusted horder hparse
    have hread : codec.decode doc = some (m.sign R k) := by
      rw [codec_orderFree.decode_eq (unique_encode _) horder]
      exact decode_of_isDocument (isDocument_encode (hfits.withSignatures _))
    exact ⟨fromJson_of_decode hparse hread, isSignedByTrusted_sign hS htrusted m⟩

end ReleaseManifest

/-! ## A release of a later time -/

/-- A release of one program, for one platform. -/
def nextRelease : ReleaseManifest where
  schema := 1
  channel := "stable".toList
  generatedAt := 1700000000000
  expiresAt := 1710000000000
  apps := [⟨"atlas".toList, "0.2.0".toList, [], [], [⟨"linux".toList, "x86_64".toList, [],
    "atlas.tar.gz".toList, "https://example.com/atlas.tar.gz".toList, List.replicate 64 'a',
    4096, []⟩]⟩]
  signatures := []

/-- The release as a later build writes it, with a member that this one does not know. -/
def laterRelease (signatures : List UpdateSignature) : Json.Tree :=
  obj (("rollout".toList, num (ofNat 10)) ::
    ReleaseManifest.record.encode { nextRelease with signatures := signatures })

/-- The signer's signature over the release as this build writes it, and as a later one does. -/
def knownReleases : List KnownSecret := [
  { secret := firstSigner.secret
    key := signerKeys.getD 0 []
    message := ReleaseManifest.canonicalForm (ReleaseManifest.codec.encode nextRelease)
    sig := ofNumber 64 0x91f8ada9daa3be0ffa372af8a1789df70a897f14b35348cbc2a3a8d34a0ba74f08f9939b68bc368a0d400922e84d26e506233ade978546588179c8f0f5122e0a
    value := ("kfitqdqjvg/6Nyr4oXid9wqJfxSzU0jLwqOo00oLp08I+ZObaLw2ig1ACSLoTSblBiM63peFRliB" ++
      "ecjw9RIuCg==").toList },
  { secret := firstSigner.secret
    key := signerKeys.getD 0 []
    message := ReleaseManifest.canonicalForm (laterRelease [])
    sig := ofNumber 64 0xe1639dc417a7f24b353afe8466d024c9838686913e02c98f5c7dc6dbfa87fcad2a04052177d40aba34f13ec3a6b4b18e96a1a1c7ec4f223ae1ee45a87c2b3d08
    value := ("4WOdxBen8ks1Ov6EZtAkyYOGhpE+AsmPXH3G2/qH/K0qBAUhd9QKujTxPsOmtLGOlqGhx+xPIjrh" ++
      "7kWofCs9CA==").toList }]

/-- A signature of the signer, one of those that are listed. -/
def releaseSignature (i : ℕ) : UpdateSignature :=
  ⟨firstSigner.keyId (.knowing knownReleases), "ed25519".toList,
    (knownReleases.map fun k => k.value).getD i []⟩

/-- The release, signed as this build writes it, so that a reader of the same format
verifies it. -/
def signedRelease : ReleaseManifest := { nextRelease with signatures := [releaseSignature 0] }

/-- The release in two orders, and as the later build writes and signs it. -/
def releaseDocuments : List Json.Tree :=
  [ReleaseManifest.codec.encode signedRelease,
    obj (ReleaseManifest.record.encode signedRelease).reverse,
    laterRelease [releaseSignature 1]]

/-- What reads these documents, and knows these signatures, and no others. -/
def releaseReader : ReleaseReader where
  parse bytes := match releaseDocuments.find? fun doc => doc.toVec = bytes with
    | some doc => .ok doc
    | none => .error []
  shape _ := []
  scheme := .knowing knownReleases
  Version := Text
  parseVersion := some
  versionGt v w := decide (w < v)
  sha256 _ := []

theorem parse_releaseDocuments {doc : Json.Tree} (hdoc : doc ∈ releaseDocuments) :
    releaseReader.parse doc.toVec = .ok doc := by
  have hsome : (releaseDocuments.find? fun doc' => doc'.toVec = doc.toVec).isSome = true :=
    List.find?_isSome.mpr ⟨doc, hdoc, decide_eq_true rfl⟩
  obtain ⟨doc', hdoc'⟩ := Option.isSome_iff_exists.mp hsome
  have hfound := List.find?_some hdoc'
  have hsame : doc' = doc := toVec_injective (of_decide_eq_true hfound)
  show (match releaseDocuments.find? fun doc' => doc'.toVec = doc.toVec with
    | some doc => Except.ok doc
    | none => Except.error []) = Except.ok doc
  rw [hdoc', hsame]

theorem nextRelease_fits : nextRelease.Fits where
  schema := by decide
  generatedAt := by decide
  expiresAt := by decide
  sizes := by decide

/-- **A later build's release is not verified.** The document is one of a manifest, a
trusted key signed it over its canonical form, and the manifest that is read of it is not
signed by a trusted key. -/
theorem laterRelease_unverified :
    ∃ m : ReleaseManifest, m.IsDocument (laterRelease m.signatures) ∧
      releaseReader.libs.fromJson (laterRelease m.signatures).toVec = .ok m ∧
      (∃ sig ∈ m.signatures, signatureIsTrusted releaseReader.libs
        (ReleaseManifest.canonicalForm (laterRelease m.signatures)) sig
        [hexEncode (signerKeys.getD 0 [])] = true) ∧
      m.isSignedByTrusted releaseReader.libs [hexEncode (signerKeys.getD 0 [])] = false := by
  have hdoc : ReleaseManifest.IsDocument { nextRelease with signatures := [releaseSignature 1] }
      (laterRelease [releaseSignature 1]) := by
    obtain ⟨fields, hfields, -, hwritten⟩ := ReleaseManifest.isDocument_encode
      (nextRelease_fits.withSignatures [releaseSignature 1])
    cases hfields
    refine ⟨_, rfl, rfl, hwritten.congr fun k hk => ?_⟩
    have hne : k ≠ "rollout".toList := fun heq => absurd (heq ▸ hk) (by decide)
    rw [member, if_neg hne, Option.or_none]
  refine ⟨{ nextRelease with signatures := [releaseSignature 1] }, hdoc,
    ReleaseManifest.fromJson_of_decode (parse_releaseDocuments ?_)
      (ReleaseManifest.decode_of_isDocument hdoc), ?_, ?_⟩
  · exact List.mem_cons_of_mem _ (List.mem_cons_of_mem _ List.mem_cons_self)
  · decide +kernel
  · decide +kernel

/-- A trusted signature is accepted for the key it names. -/
theorem accepts_of_signatureIsTrusted {L : UpdateLibs} {bytes : Bytes} {sig : UpdateSignature}
    {trusted : List Text} (h : signatureIsTrusted L bytes sig trusted = true) :
    ∃ key, L.scheme.accepts key bytes sig.value = true := by
  unfold signatureIsTrusted at h
  split at h
  · cases h
  · dsimp only at h
    split at h
    · cases h
    · split at h
      · cases h
      · exact ⟨_, h⟩

/-- The release that this build signed is verified, in either order. -/
theorem signedRelease_verified :
    (releaseReader.libs.fromJson (ReleaseManifest.codec.encode signedRelease).toVec =
        .ok signedRelease ∧
      signedRelease.isSignedByTrusted releaseReader.libs
        [hexEncode (signerKeys.getD 0 [])] = true) ∧
    releaseReader.libs.fromJson
      (obj (ReleaseManifest.record.encode signedRelease).reverse).toVec = .ok signedRelease := by
  have hS : releaseReader.scheme.Correct := SigningScheme.knowing_correct (by decide +kernel)
  obtain ⟨hread, hsigned⟩ :=
    ReleaseManifest.release_verifiable_iff hS [hexEncode (signerKeys.getD 0 [])]
  have hover : signedRelease.SignedOver releaseReader.libs (ReleaseManifest.canonicalForm
      (ReleaseManifest.codec.encode signedRelease)) [hexEncode (signerKeys.getD 0 [])] := by
    refine ⟨by decide +kernel, fun sig hsig message h => ?_⟩
    obtain rfl := List.mem_singleton.mp hsig
    obtain ⟨key, haccepts⟩ := accepts_of_signatureIsTrusted h
    obtain ⟨-, bytes, hbytes, hverifies⟩ := SignatureScheme.accepts_eq_true haccepts
    have hdecode : (SigningScheme.knowing knownReleases).base64Decode
        (releaseSignature 0).value = some ((knownReleases.map fun k => k.sig).getD 0 []) := by
      decide +kernel
    obtain rfl := Option.some.inj (hdecode.symm.trans hbytes)
    -- no other known signature has these bytes
    have hone : ∀ k ∈ knownReleases, k.sig = (knownReleases.map fun k => k.sig).getD 0 [] →
        k.message = ReleaseManifest.canonicalForm
          (ReleaseManifest.codec.encode signedRelease) := by
      decide +kernel
    obtain hknown | hzero := Bool.or_eq_true_iff.mp hverifies
    · obtain ⟨k, hk, hk'⟩ := List.any_eq_true.mp hknown
      obtain ⟨-, hmessage, hsame⟩ := of_decide_eq_true hk'
      exact hmessage.symm.trans (hone k hk hsame)
    · exact absurd (of_decide_eq_true hzero) (by decide +kernel)
  have hsign : nextRelease.sign releaseReader firstSigner = signedRelease := by decide +kernel
  have horder : Reorders (ReleaseManifest.codec.encode (nextRelease.sign releaseReader firstSigner))
      (obj (ReleaseManifest.record.encode signedRelease).reverse) := by
    rw [hsign]
    exact .members (List.reverse_perm _).symm
  have hfirst := hread signedRelease _ _
    (ReleaseManifest.isDocument_encode (nextRelease_fits.withSignatures _))
    (parse_releaseDocuments List.mem_cons_self) hover
  have hsecond := hsigned firstSigner nextRelease _ _ nextRelease_fits
    ⟨_, List.mem_cons_self, by decide +kernel⟩ horder
    (parse_releaseDocuments (List.mem_cons_of_mem _ List.mem_cons_self))
  exact ⟨⟨hfirst.1, hfirst.2.mpr (by decide +kernel)⟩, hsecond.1.trans (congrArg Except.ok hsign)⟩

end Atlas
