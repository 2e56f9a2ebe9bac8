import Atlas.Document
import Atlas.Engine

/-!
# Shared content

A share link names a file by its content id and says what the sender says about it.
`ShareTarget.decode` reads one, `contentManifest` makes a manifest of it that is
imported like any other.

The id of that manifest carries twelve characters, the first of the SHA-256 or of the
BLAKE3. It tells two targets apart as far as those do (`contentManifest_apart_iff`): a link
whose content id agrees with that of another so far takes the place of its manifest, which
the id of a local import, with the whole BLAKE3 in it, is made to prevent.
-/

namespace Atlas

open Text

/-- What a peer needs to fetch and verify a shared file. The descriptive fields are
what the sender says; only the digests are verified. -/
structure ShareTarget where
  /-- Suggested file name. -/
  name : Text
  /-- File size in bytes (0 if unknown). -/
  size : ℕ
  /-- SHA-256 content id. -/
  sha256 : Text
  /-- BLAKE3 content id. -/
  blake3 : Text
  /-- License tag, when known. -/
  license : Text
  title : Text
  family : Text
  quant : Text
  desc : Text
  origin : Text
  magnet : Text
  deriving DecidableEq, Repr

namespace ShareTarget

/-- A content id: 64 hexadecimal digits, in either case, as a SHA-256 or a BLAKE3 is written. -/
def isHex64 (s : Text) : Bool := s.utf8Len = 64 && s.all isAsciiHexdigit

/-- Whether this target has a usable content id, of either kind; without one there is
nothing to verify a file against. -/
def hasContentId (t : ShareTarget) : Bool := isHex64 t.sha256 || isHex64 t.blake3

/-- The content id of a target: its SHA-256 if that is usable, or else its BLAKE3. -/
def contentId (t : ShareTarget) : Text := if isHex64 t.sha256 then t.sha256 else t.blake3

/-- The best title to show: the sender's, or else the name, each trimmed. -/
def displayTitle (t : ShareTarget) : Text :=
  if !(trim t.title).isEmpty then trim t.title else trim t.name

/-- The target of a bare content id, as a pasted token gives it: the default name and
nothing else known. -/
def ofSha256 (sha256 : Text) : ShareTarget where
  name := "shared-model.gguf".toList
  size := 0
  sha256 := sha256
  blake3 := []
  license := []
  title := []
  family := []
  quant := []
  desc := []
  origin := []
  magnet := []

/-- Parse a share token, or a bare content id. `b64` and `fromSlice` are the base64
and JSON libraries, each with its error as a text. -/
def decode (lower : Text → Char → Text → Text) (b64 : Text → Except Text Bytes)
    (fromSlice : Bytes → Except Text ShareTarget) (token : Text) : Except Error ShareTarget :=
  let t := trim token
  if "atlas1:".toList.isPrefixOf t then
    match b64 (trim (t.drop 7)) with
    | .error e => .error (.other ("invalid share link: ".toList ++ e))
    | .ok bytes =>
      match fromSlice bytes with
      | .error e => .error (.other ("invalid share link: ".toList ++ e))
      | .ok target =>
        let target := { target with
          sha256 := toLowercase lower (trim target.sha256)
          blake3 := toLowercase lower (trim target.blake3) }
        if !target.hasContentId then
          .error (.other "share link has no usable content id".toList)
        else if (trim target.name).isEmpty then
          .ok { target with name := "shared-model.gguf".toList }
        else .ok target
  else
    let hex := toLowercase lower t
    if isHex64 hex then .ok (ofSha256 hex)
    else .error (.other "not a valid Atlas share link or 64-character content id".toList)

/-- What is decoded has a usable content id. -/
theorem hasContentId_of_decode {lower : Text → Char → Text → Text} {b64 : Text → Except Text Bytes}
    {fromSlice : Bytes → Except Text ShareTarget} {token : Text} {t : ShareTarget}
    (h : decode lower b64 fromSlice token = .ok t) : t.hasContentId = true := by
  unfold decode at h
  dsimp only at h
  split at h
  · split at h
    · cases h
    · split at h
      · cases h
      · split at h
        · cases h
        · next hid =>
          rw [Bool.not_eq_true, Bool.not_eq_false'] at hid
          split at h
          · cases h
            exact hid
          · cases h
            exact hid
  · split at h
    · next hhex =>
      cases h
      exact Bool.or_eq_true_iff.mpr (.inl hhex)
    · cases h

end ShareTarget

/-! ## The manifest of a target -/

/-- A local file name: what is after the last separator, so that no directory of the
sender's is taken over. -/
def sanitizeLocalName (filename : Text) : Text :=
  filename.rtakeWhile fun c => c ≠ '/' && c ≠ '\\'

/-- A coarse format tag from a file name: `mlx` where the name says so, and otherwise by the
extension. -/
def formatFromName (filename : Text) : Option Text :=
  let lower := filename.toAsciiLowercase
  if ".mlx".toList <:+: lower ∨ "-mlx".toList <:+: lower ∨ "_mlx".toList <:+: lower then
    some "mlx".toList
  else
    let ext := lower.rtakeWhile fun c => c ≠ '.'
    let among (tags : List String) : Bool := (tags.map String.toList).contains ext
    if among ["gguf"] then some "gguf".toList
    else if among ["safetensors", "sft"] then some "safetensors".toList
    else if among ["onnx", "onnx_data"] then some "onnx".toList
    else if among ["pt", "pth"] then some "pytorch".toList
    -- legacy GGML weights are `.bin` files too
    else if among ["bin"] && decide ("ggml".toList <:+: lower) then some "ggml".toList
    else if among ["bin"] then some "pytorch".toList
    else if among ["ggml"] then some "ggml".toList
    else if among ["mlmodel", "mlpackage"] then some "coreml".toList
    else if among ["tflite"] then some "tflite".toList
    else if among ["h5", "hdf5", "keras"] then some "keras".toList
    else if among ["npz", "npy"] then some "numpy".toList
    else if among ["msgpack"] then some "flax".toList
    else if among ["pdparams", "pdmodel"] then some "paddle".toList
    else if among ["trt", "engine", "plan"] then some "tensorrt".toList
    else none

/-- Whether a license tag, in lower case, permits redistributing weights, from a list of
permissive licenses. -/
def licensePermitsRedistribution (l : Text) : Bool :=
  (["mit", "mit-0", "isc", "unlicense", "wtfpl", "zlib", "cc0-1.0", "cc0", "artistic-2.0",
      "postgresql"].map String.toList).contains l ||
    (["apache", "bsd", "mpl", "cc-by", "openrail", "creativeml", "bigscience", "llama", "gemma",
      "qwen", "tongyi", "mistral", "falcon", "tiiuae", "deepseek", "gpl", "lgpl",
      "epl"].map String.toList).any fun p => p.isPrefixOf l

/-- The redistribution class of a license tag: public sharing where the license permits it,
and only the public sources otherwise. -/
def RedistributionClass.forLicense (lower : Text → Char → Text → Text) (license : Option Text) :
    RedistributionClass :=
  match license with
  | some s =>
    if licensePermitsRedistribution (toLowercase lower (trim s)) then .publicP2pAllowed
    else .publicDownloadOnly
  | none => .publicDownloadOnly

/-- A text without the whitespace at its ends, if anything is left. -/
def optText (s : Text) : Option Text := if (trim s).isEmpty then none else some (trim s)

/-- What the manifest id of a target is made of: the SHA-256 where it has the right length,
and else the BLAKE3. -/
def ShareTarget.seed (target : ShareTarget) : Text :=
  if target.sha256.utf8Len = 64 then target.sha256 else target.blake3

/-- A verifiable, download-only manifest for a target; `now` is the time, and the content id
becomes the artifact's digest. -/
def contentManifest (lower : Text → Char → Text → Text) (now : Text) (target : ShareTarget) :
    Document :=
  let fileName := sanitizeLocalName target.name
  let displayName := if target.displayTitle.isEmpty then fileName else target.displayTitle
  { schemaVersion := SCHEMA_VERSION
    manifestId := "mdl_p2p_".toList ++ short target.seed
    publisher := ⟨"p2p".toList, some "Shared peer-to-peer".toList, []⟩
    model :=
      { name := displayName
        family := optText target.family
        architecture := none
        revision := none
        format := formatFromName fileName
        quantization := optText target.quant }
    license :=
      { spdx := if (trim target.license).isEmpty then "unknown".toList else trim target.license
        licenseUrl := none
        redistribution := .forLicense lower (optText target.license) }
    access := ⟨false, false, [.iroh, .httpsMirror, .bittorrentV2]⟩
    artifacts := [
      { path := fileName
        role := "weights".toList
        sizeBytes := target.size
        hashes := ⟨toLowercase lower target.blake3, toLowercase lower target.sha256, []⟩
        chunking := none
        format := formatFromName fileName
        sources :=
          if (trim target.magnet).isEmpty then []
          else [.bittorrentV2 (trim target.magnet) none .none] }]
    provenance := some
      { origin := some "p2p-content-id".toList
        modelCardRef := optText target.origin
        note := optText target.desc
        malwareBadgesObserved := none
        generatedAt := some now }
    signatures := [] }

/-! ## Telling targets apart -/

open ShareTarget

/-- A SHA-256 of the right length is a content id; a shorter or longer text is passed over. -/
def ShareTarget.PlainSha256 (t : ShareTarget) : Prop :=
  t.sha256.utf8Len = 64 → isHex64 t.sha256 = true

instance (t : ShareTarget) : Decidable t.PlainSha256 := by
  unfold ShareTarget.PlainSha256
  infer_instance

/-- The id is made of the content id. -/
theorem ShareTarget.seed_eq {t : ShareTarget} (ht : t.PlainSha256) : t.seed = t.contentId := by
  unfold seed contentId
  by_cases h : t.sha256.utf8Len = 64
  · rw [if_pos h, if_pos (ht h)]
  · have hnot : isHex64 t.sha256 = false := by
      unfold isHex64
      rw [decide_eq_false h, Bool.false_and]
    rw [if_neg h, hnot]
    rfl

/-- The stored manifests are all that an import changes. -/
theorem importManifest_frame (m : Manifest) (d : Disk) :
    ∃ manifests, (importManifest m d).2 = { d with manifests := manifests } := by
  unfold importManifest
  cases m.validate with
  | error e => exact ⟨d.manifests, rfl⟩
  | ok _ => exact ⟨_, rfl⟩

/-- **An import replaces the manifest of its own id only.** -/
theorem requireManifest_importManifest {m : Manifest} {id : Text} (h : id ≠ m.manifestId)
    (d : Disk) : requireManifest id (importManifest m d).2 = requireManifest id d := by
  unfold importManifest
  cases m.validate with
  | error e => rfl
  | ok _ =>
    have hlast : [m].find? (fun m' => decide (m'.manifestId = id)) = none :=
      List.find?_cons_of_neg (by simpa using Ne.symm h)
    have hkeep : (d.manifests.filter fun m' => decide (m'.manifestId ≠ m.manifestId)).find?
        (fun m' => decide (m'.manifestId = id)) =
        d.manifests.find? fun m' => decide (m'.manifestId = id) := by
      rw [List.find?_filter]
      congr 1
      funext m'
      by_cases hid : m'.manifestId = id
      · simp [hid, h]
      · simp [hid]
    have hfind : (d.manifests.filter (fun m' => decide (m'.manifestId ≠ m.manifestId)) ++
        [m]).find? (fun m' => decide (m'.manifestId = id)) =
        d.manifests.find? fun m' => decide (m'.manifestId = id) := by
      rw [List.find?_append, hlast, Option.or_none, hkeep]
    have hreads : ∀ d' : Disk, d'.manifests.find? (fun m' => decide (m'.manifestId = id)) =
        d.manifests.find? (fun m' => decide (m'.manifestId = id)) →
          requireManifest id d' = requireManifest id d := by
      intro d' hsame
      unfold requireManifest
      rw [hsame]
    exact hreads _ hfind

/-- The content id of what is decoded is 64 hexadecimal digits. -/
theorem ShareTarget.isHex64_contentId {t : ShareTarget} (h : t.hasContentId = true) :
    isHex64 t.contentId = true := by
  unfold contentId
  by_cases hsha : isHex64 t.sha256 = true
  · rw [if_pos hsha]
    exact hsha
  · rw [if_neg hsha]
    exact (Bool.or_eq_true_iff.mp h).resolve_left hsha

/-- **Two manifests stay apart**: their ids differ, importing either leaves what is stored
under the id of the other, and no import touches the downloads and their partial files. -/
structure StayApart (m m' : Document) : Prop where
  id_ne : m.manifestId ≠ m'.manifestId
  first : ∀ d : Disk, requireManifest m.manifestId (importManifest m'.manifest d).2 =
    requireManifest m.manifestId d
  second : ∀ d : Disk, requireManifest m'.manifestId (importManifest m.manifest d).2 =
    requireManifest m'.manifestId d
  downloads : ∀ d : Disk, ∀ x ∈ [m, m'], (importManifest x.manifest d).2.downloads = d.downloads ∧
    (importManifest x.manifest d).2.temps = d.temps

/-- Manifests with different ids stay apart, whatever else they say. -/
theorem StayApart.of_id_ne {m m' : Document} (h : m.manifestId ≠ m'.manifestId) :
    StayApart m m' where
  id_ne := h
  first := requireManifest_importManifest h
  second := requireManifest_importManifest h.symm
  downloads d x _ := by
    obtain ⟨manifests, hframe⟩ := importManifest_frame x.manifest d
    rw [hframe]
    exact ⟨rfl, rfl⟩

/-- **Targets are told apart by twelve characters.** The manifests of two targets stay apart
if and only if the texts their ids are made of, the SHA-256 if it is 64 bytes long and else the
BLAKE3, differ in their first twelve characters. -/
theorem contentManifest_apart_iff (lower : Text → Char → Text → Text) (now now' : Text)
    (a b : ShareTarget) :
    StayApart (contentManifest lower now a) (contentManifest lower now' b) ↔
      a.seed.take 12 ≠ b.seed.take 12 := by
  have hid : (contentManifest lower now a).manifestId = (contentManifest lower now' b).manifestId ↔
      a.seed.take 12 = b.seed.take 12 := by
    show "mdl_p2p_".toList ++ short a.seed = "mdl_p2p_".toList ++ short b.seed ↔ _
    rw [List.append_cancel_left_eq]
    rfl
  constructor
  · exact fun h hsame => h.id_ne (hid.mpr hsame)
  · exact fun hne => .of_id_ne fun h => hne (hid.mp h)

/-- Of two links that are accepted, it is the content ids that have to differ so early, if a
SHA-256 of the right length is one; and they are 64 hexadecimal digits. -/
theorem contentManifest_apart_iff_contentId {lower : Text → Char → Text → Text}
    {b64 : Text → Except Text Bytes} {fromSlice : Bytes → Except Text ShareTarget}
    {s t now now' : Text} {a b : ShareTarget}
    (ha : ShareTarget.decode lower b64 fromSlice s = .ok a)
    (hb : ShareTarget.decode lower b64 fromSlice t = .ok b)
    (hplain : a.PlainSha256) (hplain' : b.PlainSha256) :
    (isHex64 a.contentId = true ∧ isHex64 b.contentId = true) ∧
      (StayApart (contentManifest lower now a) (contentManifest lower now' b) ↔
        a.contentId.take 12 ≠ b.contentId.take 12) := by
  refine ⟨⟨isHex64_contentId (hasContentId_of_decode ha),
    isHex64_contentId (hasContentId_of_decode hb)⟩, ?_⟩
  rw [contentManifest_apart_iff, ShareTarget.seed_eq hplain, ShareTarget.seed_eq hplain']

/-! ## Two links -/

/-- Two content ids with the same first twelve characters, and one with others. -/
def earlierId : Text := List.replicate 64 'a'

/-- A content id that differs from the one of all `a` from its thirteenth character on. -/
def laterId : Text := List.replicate 12 'a' ++ List.replicate 52 'b'

/-- A content id that differs from both in its first character, so that no two of the three
agree in their twelve. -/
def otherId : Text := List.replicate 64 'c'

/-- Decoding with lower case for ASCII letters; no link is parsed, so only a bare token is. -/
def decodeBare (token : Text) : Except Error ShareTarget :=
  decode (fun _ c _ => [c.toLower]) (fun _ => .error []) (fun _ => .error []) token

/-- The manifest of a bare content id, as pasting the digest alone makes it. -/
def bareManifest (sha256 : Text) : Document :=
  contentManifest (fun _ c _ => [c.toLower]) [] (ofSha256 sha256)

/-- Two ids that differ at once have manifests that stay apart. -/
theorem other_id_apart :
    decodeBare earlierId = .ok (ofSha256 earlierId) ∧ decodeBare otherId = .ok (ofSha256 otherId) ∧
      StayApart (bareManifest earlierId) (bareManifest otherId) :=
  ⟨by decide +kernel, by decide +kernel, (contentManifest_apart_iff _ _ _ _ _).mpr (by decide)⟩

/-- **Two shared files, one manifest**: the ids of two bare tokens differ in the
thirteenth character, and importing the second replaces the manifest of the first. -/
theorem later_id_replaces :
    decodeBare earlierId = .ok (ofSha256 earlierId) ∧
      decodeBare laterId = .ok (ofSha256 laterId) ∧
      (ofSha256 earlierId).contentId ≠ (ofSha256 laterId).contentId ∧
      (bareManifest earlierId).manifestId = (bareManifest laterId).manifestId ∧
      ((do
        importManifest (bareManifest earlierId).manifest
        importManifest (bareManifest laterId).manifest) Disk.empty).2.manifests =
          [(bareManifest laterId).manifest] := by
  decide +kernel

end Atlas
