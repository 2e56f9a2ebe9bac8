import Atlas.ContentManifest
import Atlas.InstallContents
import Mathlib.Data.List.Forall2

/-!
# Bundles of a hub

A model of the hub is a repository of files. `manifestFor` makes a manifest of one file,
`manifestForBundle` one of the safetensors shards and of the small files they need, and
`manifestForGgufQuant` one of the files of a quant. A repository has directories; an
artifact gets the last component of a file's path as its own (`sanitizeInstallName`).

So the paths of a manifest of several files are distinct if and only if the last components are
(`hub_paths_distinct_iff`), and then every file is installed with its own content
(`hub_installs_own`).
-/

namespace Atlas

open Text Program

/-- A downloadable file within a model repository, with the digests the hub publishes for it. -/
structure HfFile where
  rfilename : Text
  size : ℕ
  /-- The SHA-256 of a large file; without it the file cannot be verified. -/
  sha256 : Option Text
  /-- The git OID of a small file, the only digest the hub publishes for it. -/
  blobId : Option Text
  deriving DecidableEq, Repr

/-- Full model detail: files of one revision, gating and license. -/
structure HfModelDetail where
  id : Text
  revision : Text
  gated : Bool
  license : Option Text
  tags : List Text
  files : List HfFile
  deriving DecidableEq, Repr

/-- What is after the last of some characters, or the whole text where it has none of them. -/
def afterLast (cs : List Char) (s : Text) : Text := s.rtakeWhile fun c => !cs.contains c

/-- What is before and after the last occurrence of a pattern, which is the first occurrence
in the reversed text, as the parts are reversed back. -/
def rsplitOnce (pat s : Text) : Option (Text × Text) :=
  (splitOnce pat.reverse s.reverse).map fun parts => (parts.2.reverse, parts.1.reverse)

/-- A text in upper case; `upper` is the table of the standard library. -/
def toUppercase (upper : Char → Text) (s : Text) : Text := s.flatMap upper

/-- Whether a character is one of the ten ASCII digits; other Unicode digits do not count,
as in the source's `is_ascii_digit`. -/
def isAsciiDigit (c : Char) : Bool := '0' ≤ c && c ≤ '9'

/-- Flatten a path in the repository to a safe single install file name. -/
def sanitizeInstallName (rfilename : Text) : Text := afterLast ['/'] rfilename

/-! ## Files -/

namespace HfFile

variable (f : HfFile)

/-- A text is at the end of the file's name, in any letter case. -/
def endsWith (ext : String) : Bool := ext.toList.isSuffixOf f.rfilename.toAsciiLowercase

/-- The format a file has by its name: `json` for its extension, and otherwise the coarse tag. -/
def format : Option Text :=
  if f.endsWith ".json" then some "json".toList else formatFromName f.rfilename

/-- A weight file worth surfacing as a download: it has a SHA-256 to be verified by, and the
extension of weights. -/
def isDownloadableWeight : Bool :=
  f.sha256.isSome && (f.endsWith ".gguf" || f.endsWith ".safetensors" || f.endsWith ".bin")

/-- A safetensors weight shard with a SHA-256; one without is passed over by the bundle. -/
def isSafetensorsShard : Bool := f.sha256.isSome && f.endsWith ".safetensors"

/-- A small companion file a model of several files needs to load. -/
def isModelSidecar : Bool :=
  if f.blobId.isNone || f.isDownloadableWeight then false
  else
    let base := afterLast ['/'] f.rfilename.toAsciiLowercase
    if base.head? = some '.' || base = "readme.md".toList || ".md".toList.isSuffixOf base then
      false
    else
      (["json", "txt", "model", "vocab", "merges", "tiktoken", "spm", "jinja"].map
        String.toList).contains (afterLast ['.'] base)

/-- A short label derived from the file name: the last part of its stem, in capitals. -/
def variantLabel (upper : Char → Text) : Text :=
  let stem := trimEndMatches ".safetensors".toList
    (trimEndMatches ".gguf".toList (afterLast ['/'] f.rfilename))
  toUppercase upper (afterLast ['-', '.'] stem)

end HfFile

/-- The base and the number of a file of a split quant, `<base>-NNNNN-of-MMMMM.gguf`. -/
def ggufShard (rfilename : Text) : Option (Text × ℕ) := do
  let stem ←
    if ".gguf".toList.isSuffixOf rfilename || ".GGUF".toList.isSuffixOf rfilename then
      some (rfilename.take (rfilename.length - 5))
    else none
  let (left, total) ← rsplitOnce "-of-".toList stem
  if total.isEmpty || !total.all isAsciiDigit then none
  let (base, idx) ← rsplitOnce "-".toList left
  if idx.isEmpty || !idx.all isAsciiDigit then none
  let number := idx.foldl (fun n c => 10 * n + (c.toNat - '0'.toNat)) 0
  -- the number is read as 32 bits
  if number < 2 ^ 32 then some (base, number) else none

/-- The label of a split quant, which is the last part of the stem its shards share. -/
def quantLabelFromStem (upper : Char → Text) (stem : Text) : Text :=
  toUppercase upper (afterLast ['-', '.'] stem)

/-- Semantic role of a sidecar file, told from its name alone. -/
def sidecarRole (rfilename : Text) : Text :=
  let lower := rfilename.toAsciiLowercase
  if "tokenizer".toList <:+: lower ∨ "merges.txt".toList <:+ lower ∨
      ".model".toList <:+ lower then
    "tokenizer".toList
  else if "config.json".toList <:+ lower ∨ "config".toList <:+: lower then "config".toList
  else if ".index.json".toList <:+ lower then "index".toList
  else "data".toList

/-! ## Repositories -/

namespace HfModelDetail

variable (detail : HfModelDetail)

/-- The name of the repository, without its owner, as it is shown. -/
def name : Text := afterLast ['/'] detail.id

/-- The safetensors weight shards that form a single model: the files of the repository with
such a name, in the order the hub lists them. -/
def safetensorsShards : List HfFile := detail.files.filter HfFile.isSafetensorsShard

/-- The companion files the model needs, small ones that belong to every quant. -/
def modelSidecars : List HfFile := detail.files.filter HfFile.isModelSidecar

/-- Whether this is an MLX repository, by tag or organisation; the organisation is looked
for anywhere in the id, and neither test minds the case of ASCII letters. -/
def isMlx : Bool :=
  detail.tags.any (fun t => eqIgnoreAsciiCase t "mlx".toList) ||
    decide ("mlx".toList <:+: detail.id.toAsciiLowercase)

/-- The format of a bundle of the repository, which is MLX where the repository says so and
safetensors otherwise. -/
def bundleFormat : Text := if detail.isMlx then "mlx".toList else "safetensors".toList

/-- A label for the bundle, with a quant hint when the repository's name has one. -/
def bundleVariantLabel : Text :=
  let base := if detail.isMlx then "MLX".toList else "Safetensors".toList
  let hints := [("4bit", "4-bit"), ("8bit", "8-bit"), ("6bit", "6-bit"), ("3bit", "3-bit"),
    ("2bit", "2-bit"), ("bf16", "bf16"), ("fp16", "fp16")]
  match hints.find? fun hint => hint.1.toList <:+: detail.id.toAsciiLowercase with
  | some hint => base ++ " · ".toList ++ hint.2.toList
  | none => base

/-- Where a file of the repository is downloaded from: the Hugging Face source of its
revision, with a token when the repository is gated. -/
def source (f : HfFile) : Source :=
  .huggingface detail.id detail.revision f.rfilename (if detail.gated then .token else .none)

/-- A stable id over the repository, the revision and some files, of which twelve bytes of
BLAKE3 are kept; `kind` tells bundles from single quants. -/
def filesId (D : Digests) (kind : Text) (files : List HfFile) : Text :=
  let key := detail.id ++ "@".toList ++ detail.revision ++ kind ++
    files.flatMap fun f => "/".toList ++ f.rfilename
  "mdl_hf_".toList ++ hexEncode ((D.blake3 key.utf8).take 12)

/-- The manifest of some artifacts of a repository, with what the hub says of the model
around them. -/
def hfManifest (lower : Text → Char → Text → Text) (now manifestId modelName : Text)
    (format quantization : Option Text) (artifacts : List DocumentArtifact) : Document where
  schemaVersion := SCHEMA_VERSION
  manifestId := manifestId
  publisher := ⟨"hf:".toList ++ detail.id, some (detail.id.takeWhile fun c => c ≠ '/'), []⟩
  model :=
    { name := modelName
      family := none
      architecture := none
      revision := some ("hf:commit:".toList ++ detail.revision)
      format := format
      quantization := quantization }
  license :=
    { spdx := detail.license.getD "unknown".toList
      licenseUrl := some ("https://huggingface.co/".toList ++ detail.id)
      redistribution := .forLicense lower detail.license }
  access := ⟨false, false, [.huggingface, .httpsMirror, .iroh]⟩
  artifacts := artifacts
  provenance := some
    { origin := some "huggingface".toList
      modelCardRef := some ("hf:".toList ++ detail.id)
      note := none
      malwareBadgesObserved := none
      generatedAt := some now }
  signatures := []

end HfModelDetail

/-! ## Manifests -/

variable (D : Digests) (lower : Text → Char → Text → Text) (upper : Char → Text) (now : Text)
  (detail : HfModelDetail)

/-- A manifest for one file of a model, whose BLAKE3 is left unknown. It has no signature,
and its id is that of the file's place in the repository, whatever the revision. -/
def manifestFor (f : HfFile) : Except Error Document :=
  match f.sha256 with
  | none => .error (.other "file has no sha256 (not an LFS object); cannot verify".toList)
  | some sha256 =>
    let key := detail.id ++ "/".toList ++ f.rfilename
    let variant := f.variantLabel upper
    .ok (detail.hfManifest lower now
      ("mdl_hf_".toList ++ hexEncode ((D.blake3 key.utf8).take 12))
      (detail.name ++ " · ".toList ++ variant) f.format (some variant)
      [{ path := sanitizeInstallName f.rfilename
         role := "weights".toList
         sizeBytes := f.size
         hashes := ⟨[], toLowercase lower sha256, []⟩
         chunking := none
         format := f.format
         sources := [detail.source f] }])

/-- The artifact of a weight file, if its SHA-256 is known. `what` names it in the error. -/
def weightArtifact (what format : Text) (f : HfFile) : Except Error DocumentArtifact :=
  match f.sha256 with
  | none => .error (.other (what ++ " `".toList ++ f.rfilename ++ "` has no sha256".toList))
  | some sha256 => .ok
      { path := sanitizeInstallName f.rfilename
        role := "weights".toList
        sizeBytes := f.size
        hashes := ⟨[], toLowercase lower sha256, []⟩
        chunking := none
        format := some format
        sources := [detail.source f] }

/-- The artifact of a companion file, if it can be verified and its size is known. -/
def sidecarArtifact (f : HfFile) : Option DocumentArtifact :=
  match f.blobId, decide (0 < f.size) with
  | some blobId, true => some
      { path := sanitizeInstallName f.rfilename
        role := sidecarRole f.rfilename
        sizeBytes := f.size
        hashes := ⟨[], [], toLowercase lower blobId⟩
        chunking := none
        format := f.format
        sources := [detail.source f] }
  | _, _ => none

/-- One manifest for a GGUF quant, possibly split across several files; the label of a split
quant comes from the base name its parts share. -/
def manifestForGgufQuant (files : List HfFile) : Except Error Document :=
  match files with
  | [] => .error (.other "no GGUF files in this quant".toList)
  | first :: _ => do
    let label :=
      match ggufShard first.rfilename, decide (1 < files.length) with
      | some (base, _), true => quantLabelFromStem upper base
      | _, _ => first.variantLabel upper
    let artifacts ← files.mapM (weightArtifact lower detail "GGUF shard".toList "gguf".toList)
    pure (detail.hfManifest lower now (detail.filesId D "#gguf".toList files)
      (detail.name ++ " · ".toList ++ label) (some "gguf".toList) (some label) artifacts)

/-- One manifest for a whole sharded safetensors model: every weight shard and the
companion files needed to load it. -/
def manifestForBundle : Except Error Document :=
  let shards := detail.safetensorsShards
  if shards.isEmpty then
    .error (.other "no safetensors weight shards to bundle in this repo".toList)
  else do
    let sidecars := detail.modelSidecars
    let weights ← shards.mapM
      (weightArtifact lower detail "weight shard".toList "safetensors".toList)
    pure (detail.hfManifest lower now (detail.filesId D "#bundle".toList (shards ++ sidecars))
      (detail.name ++ " · ".toList ++ detail.bundleVariantLabel) (some detail.bundleFormat) none
      (weights ++ sidecars.filterMap (sidecarArtifact lower detail)))

/-! ## The files of a manifest -/

/-- The files a bundle includes: the shards, and the companion files with an OID and a size. -/
def bundleFiles : List HfFile :=
  detail.safetensorsShards ++ detail.modelSidecars.filter fun f => f.blobId.isSome && 0 < f.size

/-- **A manifest of a repository and the files it includes**, which is either the bundle of
all that a repository needs or the files of one GGUF quant of it. -/
def HubManifest (files : List HfFile) (m : Document) : Prop :=
  (manifestForBundle D lower now detail = .ok m ∧ files = bundleFiles detail) ∨
    manifestForGgufQuant D lower upper now detail files = .ok m

/-- An artifact is that of a file: it has the last component of its path, and the one
digest that is published. -/
def ArtifactOf (f : HfFile) (a : DocumentArtifact) : Prop :=
  a.path = sanitizeInstallName f.rfilename ∧
    ((∃ sha256, f.sha256 = some sha256 ∧ a.hashes = ⟨[], toLowercase lower sha256, []⟩) ∨
      ∃ blobId, f.blobId = some blobId ∧ a.hashes = ⟨[], [], toLowercase lower blobId⟩)

variable {D lower upper now detail}

/-- **A manifest for one file has one artifact**, with the SHA-256 that the hub publishes
and no other digest. -/
theorem hashes_of_manifestFor {f : HfFile} {m : Document}
    (h : manifestFor D lower upper now detail f = .ok m) :
    ∃ sha256, f.sha256 = some sha256 ∧
      m.artifacts.map (fun a => a.hashes) = [⟨[], toLowercase lower sha256, []⟩] := by
  unfold manifestFor at h
  cases hsha : f.sha256 with
  | none =>
    rw [hsha] at h
    cases h
  | some sha256 =>
    rw [hsha] at h
    cases h
    exact ⟨sha256, rfl, rfl⟩

theorem artifactOf_weight {what format : Text} {f : HfFile} {a : DocumentArtifact}
    (h : weightArtifact lower detail what format f = .ok a) : ArtifactOf lower f a := by
  unfold weightArtifact at h
  cases hsha : f.sha256 with
  | none =>
    rw [hsha] at h
    cases h
  | some sha256 =>
    rw [hsha] at h
    cases h
    exact ⟨rfl, .inl ⟨sha256, hsha, rfl⟩⟩

/-- What was made one by one. -/
theorem forall₂_of_mapM {α β : Type} {f : α → Except Error β} {xs : List α} {ys : List β}
    (h : xs.mapM f = .ok ys) : List.Forall₂ (fun x y => f x = .ok y) xs ys := by
  induction xs generalizing ys with
  | nil =>
    rw [List.mapM_nil] at h
    cases h
    exact .nil
  | cons x xs ih =>
    rw [List.mapM_cons] at h
    cases hx : f x with
    | error e =>
      rw [hx] at h
      cases h
    | ok y =>
      rw [hx] at h
      cases hxs : xs.mapM f with
      | error e =>
        rw [hxs] at h
        cases h
      | ok ys' =>
        rw [hxs] at h
        cases h
        exact .cons hx (ih hxs)

theorem forall₂_weights {what format : Text} {files : List HfFile}
    {artifacts : List DocumentArtifact}
    (h : files.mapM (weightArtifact lower detail what format) = .ok artifacts) :
    List.Forall₂ (ArtifactOf lower) files artifacts :=
  (forall₂_of_mapM h).imp fun _ _ => artifactOf_weight

theorem forall₂_sidecars (files : List HfFile) :
    List.Forall₂ (ArtifactOf lower) (files.filter fun f => f.blobId.isSome && 0 < f.size)
      (files.filterMap (sidecarArtifact lower detail)) := by
  induction files with
  | nil => exact .nil
  | cons f files ih =>
    rw [List.filterMap_cons]
    unfold sidecarArtifact
    cases hid : f.blobId with
    | none =>
      rw [List.filter_cons_of_neg (by simp [hid])]
      exact ih
    | some blobId =>
      by_cases hsize : 0 < f.size
      · rw [List.filter_cons_of_pos (by simp [hid, hsize]), decide_eq_true hsize]
        exact .cons ⟨rfl, .inr ⟨blobId, hid, rfl⟩⟩ ih
      · rw [List.filter_cons_of_neg (by simp [hsize]), decide_eq_false hsize]
        exact ih

/-- **The artifacts of a manifest are those of the files it includes**, in their order. -/
theorem HubManifest.artifacts {files : List HfFile} {m : Document}
    (h : HubManifest D lower upper now detail files m) :
    List.Forall₂ (ArtifactOf lower) files m.artifacts := by
  obtain ⟨h, rfl⟩ | h := h
  · unfold manifestForBundle at h
    dsimp only at h
    split at h
    · cases h
    · cases hweights : detail.safetensorsShards.mapM
        (weightArtifact lower detail "weight shard".toList "safetensors".toList) with
      | error e =>
        rw [hweights] at h
        cases h
      | ok weights =>
        rw [hweights] at h
        cases h
        exact List.rel_append (forall₂_weights hweights) (forall₂_sidecars _)
  · unfold manifestForGgufQuant at h
    cases files with
    | nil => cases h
    | cons first rest =>
      dsimp only at h
      cases hweights : (first :: rest).mapM
        (weightArtifact lower detail "GGUF shard".toList "gguf".toList) with
      | error e =>
        rw [hweights] at h
        cases h
      | ok weights =>
        rw [hweights] at h
        cases h
        exact forall₂_weights hweights

/-- The paths of artifacts are the last components of their files' paths. -/
theorem paths_eq {files : List HfFile} {artifacts : List DocumentArtifact}
    (h : List.Forall₂ (ArtifactOf lower) files artifacts) :
    (artifacts.map fun a => a.path) = files.map fun f => sanitizeInstallName f.rfilename := by
  induction h with
  | nil => rfl
  | cons ha _ ih =>
    rw [List.map_cons, List.map_cons, ih, ha.1]

/-! ## Installing -/

/-- **A published file**: its own bytes have the digest that is published, and no others do. -/
structure Published (D : Digests) (content : HfFile → Bytes) (f : HfFile) (a : DocumentArtifact) :
    Prop where
  own : a.hashes.Match D (content f)
  only : ∀ b, a.hashes.Match D b → b = content f

/-- Digests of which one at most is declared, and not a BLAKE3. -/
def OneDigest (h : Hashes) : Prop := h.blake3 = [] ∧ (h.sha256 = [] ∨ h.gitBlobSha1 = [])

theorem ArtifactOf.oneDigest {f : HfFile} {a : DocumentArtifact} (ha : ArtifactOf lower f a) :
    OneDigest a.hashes := by
  obtain ⟨-, ⟨_, -, hhashes⟩ | ⟨_, -, hhashes⟩⟩ := ha
  · rw [hhashes]
    exact ⟨rfl, .inr rfl⟩
  · rw [hhashes]
    exact ⟨rfl, .inl rfl⟩

/-- With one digest, an install looks a blob up as a download does. -/
theorem contentKey_eq {a : Artifact} (ha : OneDigest a.hashes) (c : Cache) :
    Machine.contentKey c a = cachedBlake3 c a := by
  obtain ⟨hblake3, hone⟩ := ha
  unfold Machine.contentKey cachedBlake3
  have hnone : a.hashes.hasBlake3 = false := by simp [Hashes.hasBlake3, hblake3]
  rw [hnone, Bool.false_and]
  obtain hsha | hgit := hone
  · have hnone : a.hashes.hasSha256 = false := by simp [Hashes.hasSha256, hsha]
    rw [hnone]
    rfl
  · have hnone : a.hashes.hasGitBlobSha1 = false := by simp [Hashes.hasGitBlobSha1, hgit]
    rw [hnone]
    cases a.hashes.hasSha256 with
    | true => simp
    | false => rfl

/-- What has the digest the lookup goes by has the one digest. -/
theorem LookedUpBy.match {a : Artifact} (ha : OneDigest a.hashes) {c : Cache} {b : Bytes}
    (hby : LookedUpBy D a c b) : a.hashes.Match D b := by
  obtain ⟨hblake3, hone⟩ := ha
  have hnone : a.hashes.hasBlake3 = false := by simp [Hashes.hasBlake3, hblake3]
  unfold LookedUpBy at hby
  rw [hnone, Bool.false_and, if_neg Bool.false_ne_true] at hby
  refine ⟨fun h => absurd (hnone.symm.trans h) Bool.false_ne_true, fun h => ?_, fun h => ?_⟩
  · rw [if_pos h] at hby
    exact hby
  · obtain hsha | hgit := hone
    · have hnone : a.hashes.hasSha256 = false := by simp [Hashes.hasSha256, hsha]
      rw [hnone, if_neg Bool.false_ne_true] at hby
      exact hby.2
    · have hnone : a.hashes.hasGitBlobSha1 = false := by simp [Hashes.hasGitBlobSha1, hgit]
      exact absurd (hnone.symm.trans h) Bool.false_ne_true

/-- **What an artifact with one digest is installed with has that digest**, if the rows
of the index are true. -/
theorem match_of_installBytes {a : Artifact} (ha : OneDigest a.hashes) {c : Cache}
    (hc : CacheSound D (CacheBlob.DigestsTrue D) c) {b : Bytes}
    (hb : Machine.installBytes c a = some b) : a.hashes.Match D b := by
  obtain ⟨blake3, hkey, hblob⟩ := Option.bind_eq_some_iff.mp hb
  rw [contentKey_eq ha] at hkey
  obtain ⟨key, b', hpath, hb', hby, -⟩ := cachedBlake3_spec hc.cas hc.rows hkey
  rw [hpath] at hblob
  obtain rfl := Option.some.inj (hb'.symm.trans hblob)
  exact hby.match ha

/-- Lists related twice are related by both, from either side. -/
theorem exists_related {α β : Type} {R S : α → β → Prop} {xs : List α} {ys : List β}
    (h : List.Forall₂ R xs ys) (h' : List.Forall₂ S xs ys) :
    (∀ x ∈ xs, ∃ y ∈ ys, R x y ∧ S x y) ∧ ∀ y ∈ ys, ∃ x ∈ xs, R x y ∧ S x y := by
  induction h with
  | nil => exact ⟨nofun, nofun⟩
  | cons hr _ ih =>
    cases h' with
    | cons hs h' =>
      obtain ⟨hleft, hright⟩ := ih h'
      refine ⟨fun x hx => ?_, fun y hy => ?_⟩
      · obtain rfl | hx := List.mem_cons.mp hx
        · exact ⟨_, .head _, hr, hs⟩
        · obtain ⟨y, hy, hboth⟩ := hleft x hx
          exact ⟨y, .tail _ hy, hboth⟩
      · obtain rfl | hy := List.mem_cons.mp hy
        · exact ⟨_, .head _, hr, hs⟩
        · obtain ⟨x, hx, hboth⟩ := hright y hy
          exact ⟨x, .tail _ hx, hboth⟩

/-- **Files with different names are installed with their own contents**: if the names
lead to different places, whenever `materializeInstall` returns. -/
theorem HubManifest.installs_own {files : List HfFile} {m : Document}
    (hm : HubManifest D lower upper now detail files m) {content : HfFile → Bytes}
    (hpublished : List.Forall₂ (Published D content) files m.artifacts)
    (hnames : (files.map fun f => sanitizeInstallName f.rfilename).Nodup)
    {locate : Text → Place} {os : Os} {targetDir : Text} {views : List InstallView}
    {h h' : Machine} (hstored : requireManifest m.manifestId h.disk = .ok m.manifest)
    (hplaces : ∀ f ∈ files, ∀ f' ∈ files,
      locate (joinDest targetDir (sanitizeInstallName f.rfilename)) =
        locate (joinDest targetDir (sanitizeInstallName f'.rfilename)) →
      sanitizeInstallName f.rfilename = sanitizeInstallName f'.rfilename)
    (hc : CacheSound D (CacheBlob.DigestsTrue D) h.disk.cache)
    (hok : Machine.materializeInstall locate os m.manifestId targetDir h = (.ok views, h'))
    {f : HfFile} (hf : f ∈ files) :
    FileTree.contentAt (locate (joinDest targetDir (sanitizeInstallName f.rfilename))) h'.files =
      some (content f) := by
  obtain ⟨hartifact, hfile⟩ := exists_related hm.artifacts hpublished
  obtain ⟨a, hmem, hof, hpub⟩ := hartifact f hf
  have hpaths : (m.artifacts.map fun a => a.path).Nodup := by
    rw [paths_eq hm.artifacts]
    exact hnames
  have hdistinct : ∀ x ∈ m.manifest.artifacts, ∀ y ∈ m.manifest.artifacts,
      Machine.placeOf locate targetDir y = Machine.placeOf locate targetDir x → y = x := by
    intro x hx y hy hplace
    obtain ⟨a₁, hmem₁, rfl⟩ := List.mem_map.mp hx
    obtain ⟨a₂, hmem₂, rfl⟩ := List.mem_map.mp hy
    obtain ⟨f₁, hf₁, hof₁, -⟩ := hfile a₁ hmem₁
    obtain ⟨f₂, hf₂, hof₂, -⟩ := hfile a₂ hmem₂
    unfold Machine.placeOf at hplace
    have hname := hplaces f₂ hf₂ f₁ hf₁ (by rw [← hof₁.1, ← hof₂.1]; exact hplace)
    have hpath : a₂.path = a₁.path := by rw [hof₁.1, hof₂.1, hname]
    rw [List.inj_on_of_nodup_map hpaths hmem₂ hmem₁ hpath]
  have hartifacts : a.toArtifact ∈ m.manifest.artifacts := List.mem_map.mpr ⟨a, hmem, rfl⟩
  have hcontents := Machine.installArtifacts_contents (Machine.materializeInstall_ok hstored hok)
    (Machine.placeOf locate targetDir a.toArtifact)
  rw [Machine.lastAt_of_distinct hdistinct hartifacts] at hcontents
  obtain ⟨b, hb, hcontent⟩ := hcontents
  have hown := hpub.only b (match_of_installBytes hof.oneDigest hc hb)
  unfold Machine.placeOf at hcontent
  rw [← hof.1, ← hown]
  exact hcontent

/-- **The paths of a manifest are distinct if and only if the last components of its
files' paths are.** Then every file it includes is installed with its own content:
whenever `materializeInstall` returns, in a directory where different names lead to
different places and from a store whose index is true. -/
theorem hub_paths_distinct_iff {files : List HfFile} {m : Document}
    (hm : HubManifest D lower upper now detail files m) :
    ((m.artifacts.map fun a => a.path).Nodup ↔
        (files.map fun f => sanitizeInstallName f.rfilename).Nodup) ∧
      ((files.map fun f => sanitizeInstallName f.rfilename).Nodup →
        ∀ (content : HfFile → Bytes) (locate : Text → Place) (os : Os) (targetDir : Text)
          (views : List InstallView) (h h' : Machine),
          List.Forall₂ (Published D content) files m.artifacts →
          requireManifest m.manifestId h.disk = .ok m.manifest →
          (∀ f ∈ files, ∀ f' ∈ files,
            locate (joinDest targetDir (sanitizeInstallName f.rfilename)) =
              locate (joinDest targetDir (sanitizeInstallName f'.rfilename)) →
            sanitizeInstallName f.rfilename = sanitizeInstallName f'.rfilename) →
          CacheSound D (CacheBlob.DigestsTrue D) h.disk.cache →
          Machine.materializeInstall locate os m.manifestId targetDir h = (.ok views, h') →
          ∀ f ∈ files, FileTree.contentAt
            (locate (joinDest targetDir (sanitizeInstallName f.rfilename))) h'.files =
              some (content f)) := by
  refine ⟨by rw [paths_eq hm.artifacts], fun hnames content locate os targetDir views h h'
    hpublished hstored hplaces hc hok f hf => ?_⟩
  exact hm.installs_own hpublished hnames hstored hplaces hc hok hf

/-! ## A repository with directories -/

/-- A repository with some files, and nothing else that matters here. -/
def repository (files : List HfFile) : HfModelDetail :=
  ⟨"org/model".toList, "main".toList, false, some "apache-2.0".toList, [], files⟩

/-- The shard of a part of a model, named alike in every part's directory. -/
def partShard (part : String) (sha256 : Text) : HfFile :=
  ⟨part.toList ++ "/model.safetensors".toList, 3, some sha256, none⟩

/-- A model of two parts, a directory each, whose shards have one name. -/
def twoParts : HfModelDetail :=
  repository [partShard "text_encoder" (List.replicate 64 'a'),
    partShard "unet" (List.replicate 64 'b')]

/-- The bundle of a repository, with lower case for ASCII letters, stamped with no time;
this suffices for examples about which files a bundle includes. -/
def bundleOf (detail : HfModelDetail) : Except Error Document :=
  manifestForBundle sampleDigests (fun _ c _ => [c.toLower]) [] detail

/-- A shard with some content, declared by its true length and SHA-256. -/
def shardOf (name : String) (b : Bytes) : HfFile :=
  ⟨name.toList, b.length, some (hexEncode (sampleDigests.sha256 b)), none⟩

/-- A model of two parts, a directory each, whose shards have names of their own. -/
def namedParts : HfModelDetail :=
  repository [shardOf "unet/model.safetensors" abc, shardOf "text_encoder/encoder.safetensors" []]

/-- The bundle of that model, as the library makes it; it is one, since every shard has a
digest. -/
def namedPartsManifest : Document := (bundleOf namedParts).toOption.getD (bareManifest [])

/-- What is in the files of that model, told apart by their declared sizes. -/
def partContent (f : HfFile) : Bytes := if f.size = 3 then abc else []

/-- The parts are in the cache, and the bundle is imported. -/
def namedPartsStore : Machine :=
  Machine.runOps sampleDigests Machine.slashes [
    .fetch (.importLocalFile abc abcManifest) rfl,
    .fetch (.importLocalFile [] (Machine.modelManifest "second".toList [])) rfl,
    .fetch (.importManifest namedPartsManifest.manifest) rfl]

/-- Its index is true: nothing was fetched but local files. -/
theorem namedPartsStore_sound :
    CacheSound sampleDigests (CacheBlob.DigestsTrue sampleDigests) namedPartsStore.disk.cache := by
  have hops : Transition.Along (fun d op => op.apply sampleDigests d) (Agreeing sampleDigests) [
      .importLocalFile abc abcManifest,
      .importLocalFile [] (Machine.modelManifest "second".toList []),
      .importManifest namedPartsManifest.manifest] Disk.empty :=
    ⟨trivial, trivial, trivial, trivial⟩
  exact CacheSound.runOps sampleDigests_injective hops

/-- A file is published with the SHA-256 of its content, which nothing else has. -/
theorem published_sha256 {f : HfFile} {a : DocumentArtifact} {b : Bytes}
    (ha : a.hashes = ⟨[], hexEncode (sampleDigests.sha256 b), []⟩)
    (hdeclared : a.hashes.hasSha256 = true) (hb : partContent f = b) :
    Published sampleDigests partContent f a := by
  have hsha : Function.Injective sampleDigests.sha256 :=
    tabulated_injective (by decide +kernel) (by decide +kernel)
  refine ⟨?_, fun b' hmatch => ?_⟩
  · rw [ha, hb]
    exact ⟨nofun, fun _ => eqIgnoreAsciiCase_refl _, nofun⟩
  · have hsame := hmatch.sha256 hdeclared
    rw [ha] at hsame
    rw [hb]
    exact (hsha (hexEncode_eqIgnoreAsciiCase.mp hsame)).symm

/-- The two parts are installed next to each other, each with its own content. -/
theorem named_parts_installed :
    ((namedPartsManifest.artifacts.map fun a => a.path).Nodup ↔
        ((bundleFiles namedParts).map fun f => sanitizeInstallName f.rfilename).Nodup) ∧
      ∀ f ∈ bundleFiles namedParts, FileTree.contentAt
        (Machine.slashes (joinDest "models".toList (sanitizeInstallName f.rfilename)))
        (Machine.materializeInstall Machine.slashes (.willing .reflink)
          namedPartsManifest.manifestId "models".toList namedPartsStore).2.files =
            some (partContent f) := by
  have hm : HubManifest sampleDigests (fun _ c _ => [c.toLower]) (fun c => [c.toUpper]) []
      namedParts (bundleFiles namedParts) namedPartsManifest := .inl ⟨rfl, rfl⟩
  obtain ⟨hpaths, hinstalls⟩ := hub_paths_distinct_iff hm
  have hok : (Machine.materializeInstall Machine.slashes (.willing .reflink)
      namedPartsManifest.manifestId "models".toList namedPartsStore).1 =
        .ok [⟨"model.safetensors".toList, "models/model.safetensors".toList, .reflink⟩,
          ⟨"encoder.safetensors".toList, "models/encoder.safetensors".toList, .reflink⟩] := by
    decide +kernel
  refine ⟨hpaths, hinstalls (by decide +kernel) partContent Machine.slashes
    (.willing .reflink) "models".toList _ namedPartsStore _ ?_ (by decide +kernel)
    (by decide +kernel) namedPartsStore_sound (eq_of_fst_eq hok)⟩
  have hhashes : (namedPartsManifest.artifacts.map fun a => a.hashes) =
      [⟨[], hexEncode (sampleDigests.sha256 abc), []⟩,
        ⟨[], hexEncode (sampleDigests.sha256 []), []⟩] := by
    decide +kernel
  obtain ⟨a, rest, hartifacts, hfirst, hrest⟩ := List.map_eq_cons_iff.mp hhashes
  obtain ⟨a', hlast, hsecond⟩ := List.map_eq_singleton_iff.mp hrest
  rw [hartifacts, hlast]
  exact .cons (published_sha256 hfirst (by rw [hfirst]; decide +kernel) rfl)
    (.cons (published_sha256 hsecond (by rw [hsecond]; decide +kernel) rfl) .nil)

/-- **Two parts of a model are one file**: the manifest of the bundle is valid and its
two artifacts have one path. -/
theorem two_parts_one_path :
    ∃ m, bundleOf twoParts = .ok m ∧ m.manifest.validate.toBool = true ∧
      ¬ (m.artifacts.map fun a => a.path).Nodup := by
  have hfacts : (bundleOf twoParts).toOption.any (fun m =>
      m.manifest.validate.toBool && !decide (m.artifacts.map fun a => a.path).Nodup) = true := by
    decide +kernel
  cases hm : bundleOf twoParts with
  | error e =>
    rw [hm] at hfacts
    cases hfacts
  | ok m =>
    rw [hm] at hfacts
    obtain ⟨hvalid, htwice⟩ := Bool.and_eq_true_iff.mp hfacts
    exact ⟨m, rfl, hvalid, by simpa using htwice⟩

end Atlas
