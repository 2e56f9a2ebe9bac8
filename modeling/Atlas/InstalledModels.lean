import Atlas.SearchResults
import Atlas.Sharing

/-!
# Installed models

`installedModels` lists the models whose bytes are cached, for the library view: one
row for each SHA-256 text that a first artifact declares, the manifests with it merged
into one (`mergeAll_shown`).

The row of a manifest is found by what the manifest declares, its blob by what is
cached. `installedModels_lists_iff` says when the rows are the blobs: a manifest that
declares no SHA-256 goes by the empty text, with every other that declares none, and
apart from those that declare it.
-/

namespace Atlas

open Text

/-- A downloaded model, as the library shows it: one row for each content that some manifest
declares. -/
structure InstalledModel where
  manifestId : Text
  name : Text
  sizeBytes : ℕ
  blake3 : Text
  sha256 : Text
  fromHf : Bool
  /-- License tag from the model's manifest. -/
  license : Text
  family : Option Text
  /-- Quantization label. -/
  quant : Option Text
  /-- A free-text description the sharer wrote. -/
  description : Option Text
  /-- Where the model originally came from. -/
  origin : Option Text
  signed : Bool
  /-- Whether this file is currently shared to the mesh. -/
  shareable : Bool
  gated : Bool
  installPath : Option Text
  format : Option Text
  deriving DecidableEq, Repr

/-- What of a row of `install_views` the listing reads: the manifest the view is of, and the
path at which its file is. -/
structure InstallDest where
  manifestId : Text
  destPath : Text
  deriving DecidableEq, Repr

/-! ## Merging -/

/-- The first of some items with a property, or the first of them all. -/
def preferred {ι : Type} (p : ι → Bool) (items : List ι) : Option ι :=
  (items.find? p).or items.head?

theorem preferred_map {ι κ : Type} (p : κ → Bool) (f : ι → κ) (items : List ι) :
    preferred p (items.map f) = (preferred (fun x => p (f x)) items).map f := by
  unfold preferred
  rw [List.find?_map, List.head?_map, Option.map_or]
  rfl

theorem mem_of_preferred {ι : Type} {p : ι → Bool} {items : List ι} {x : ι}
    (h : preferred p items = some x) : x ∈ items := by
  obtain h | ⟨-, h⟩ := Option.or_eq_some_iff.mp h
  · exact List.mem_of_find?_eq_some h
  · exact List.mem_of_mem_head? h

theorem preferred_singleton {ι : Type} (p : ι → Bool) (x : ι) : preferred p [x] = some x := by
  unfold preferred
  cases hx : p x with
  | true =>
    rw [List.find?_cons_of_pos hx]
    rfl
  | false =>
    rw [List.find?_cons_of_neg (by rw [hx]; exact Bool.false_ne_true)]
    rfl

/-- One more item is preferred if it has the property and none before it has, or if
none was before it. -/
theorem preferred_append {ι : Type} {p : ι → Bool} {items : List ι} {x : ι}
    (h : preferred p items = some x) (y : ι) :
    preferred p (items ++ [y]) = some (if p y && !p x then y else x) := by
  unfold preferred at h ⊢
  rw [List.find?_append, List.head?_append]
  cases hfind : items.find? p with
  | some z =>
    rw [hfind] at h
    have hzx : z = x := Option.some.inj h
    have hx : p x = true := hzx ▸ List.find?_some hfind
    rw [hx, Bool.not_true, Bool.and_false]
    exact h
  | none =>
    rw [hfind] at h
    have hx : p x = false :=
      Bool.eq_false_iff.mpr (List.find?_eq_none.mp hfind x (List.mem_of_mem_head? h))
    have hhead : items.head? = some x := h
    rw [hx, hhead, Bool.not_false, Bool.and_true]
    cases hy : p y with
    | true =>
      rw [List.find?_cons_of_pos hy]
      rfl
    | false =>
      rw [List.find?_cons_of_neg (by rw [hy]; exact Bool.false_ne_true)]
      rfl

namespace InstalledModel

/-- A row is of the manifests whose first artifact declares its SHA-256 text. -/
def Of (r : InstalledModel) (art : DocumentArtifact) : Prop := r.sha256 = art.hashes.sha256

/-- Merge a model into the row of its SHA-256, or start one: the one from Hugging Face
is preferred, and an install path is kept. -/
def merge (model : InstalledModel) : Option InstalledModel → InstalledModel
  | none => model
  | some existing =>
    if model.fromHf && !existing.fromHf then model
    else if model.installPath.isSome && existing.installPath.isNone then
      { existing with installPath := model.installPath }
    else existing

/-- Another install path in place of the model's own, with every other field as it is. -/
def withPath (path : Option Text) (model : InstalledModel) : InstalledModel :=
  { model with installPath := path }

/-- Merging prefers a model, and may change the install path. -/
theorem merge_some (model r : InstalledModel) :
    ∃ path, merge model (some r) = withPath path (if model.fromHf && !r.fromHf then model else r) := by
  by_cases hnew : (model.fromHf && !r.fromHf) = true
  · refine ⟨model.installPath, ?_⟩
    rw [if_pos hnew]
    exact if_pos hnew
  · rw [if_neg hnew]
    by_cases hpath : (model.installPath.isSome && r.installPath.isNone) = true
    · exact ⟨model.installPath, (if_neg hnew).trans (if_pos hpath)⟩
    · exact ⟨r.installPath, (if_neg hnew).trans (if_neg hpath)⟩

/-- **A row shows the preferred model**, up to the install path. -/
theorem mergeAll_shown {models : List InstalledModel} {r : InstalledModel}
    (h : models.foldl (fun r model => some (merge model r)) none = some r) :
    ∃ shown path, preferred fromHf models = some shown ∧ r = withPath path shown := by
  refine AList.foldl_merge_spec
    (P := fun models r => ∃ shown path, preferred fromHf models = some shown ∧
      r = withPath path shown)
    (fun model => ⟨model, model.installPath, preferred_singleton _ _, rfl⟩)
    (fun models model r hr => ?_) h
  obtain ⟨shown, path, hshown, rfl⟩ := hr
  obtain ⟨path', hmerge⟩ := merge_some model (withPath path shown)
  refine ⟨_, path', preferred_append hshown model, ?_⟩
  rw [hmerge]
  by_cases hnew : (model.fromHf && !shown.fromHf) = true
  · rw [if_pos hnew]
    exact congrArg (withPath path') (if_pos hnew)
  · rw [if_neg hnew]
    show withPath path' (if (model.fromHf && !shown.fromHf) = true then model
      else withPath path shown) = _
    rw [if_neg hnew]
    rfl

end InstalledModel

/-! ## The listing -/

namespace ShareDb

variable (db : ShareDb) (ids : List Text)

/-- Whether the cache has what an artifact declares, looked up by the SHA-256 or by the
BLAKE3 text. -/
def isCached (h : Hashes) : Bool :=
  (h.hasSha256 && db.cacheBlobs.any fun row => row.sha256 = h.sha256) ||
    (h.hasBlake3 && db.cacheBlobs.any fun row => row.blake3 = h.blake3)

/-- Resolve a real BLAKE3: a manifest may declare a SHA-256 only, for which the listing
looks the digest up among the cache rows. -/
def installedBlake3 (h : Hashes) : Text :=
  if h.hasBlake3 then h.blake3 else (Db.blake3ForSha256 h.sha256 db.cacheBlobs).getD []

/-- The model of a manifest with this first artifact, with its size, whether it is cached
and where its views are, as the listing shows it. -/
def installedModel (installs : List InstallDest) (entry : Document × DocumentArtifact) :
    InstalledModel :=
  let (m, art) := entry
  let blake3 := db.installedBlake3 art.hashes
  let flags :=
    if blake3.isEmpty then (m.autoShareable db.shareGated, m.isGated)
    else (db.isBlobShareable blake3, (db.blobProvenance blake3).2.1)
  { manifestId := m.manifestId
    name := m.model.name
    sizeBytes := art.sizeBytes
    blake3 := blake3
    sha256 := art.hashes.sha256
    fromHf := "hf:".toList.isPrefixOf m.publisher.id
    license := m.license.spdx
    family := m.model.family
    quant := m.model.quantization
    description := m.provenance.bind Provenance.note
    origin := m.provenance.bind Provenance.modelCardRef
    signed := !m.signatures.isEmpty
    shareable := flags.1
    gated := flags.2
    installPath := (installs.find? fun i => i.manifestId = m.manifestId).map InstallDest.destPath
    format := art.format }

/-- The listed manifests whose first artifact is cached, each with that artifact. -/
def installed : List (Document × DocumentArtifact) :=
  ids.filterMap fun id => (db.manifests.lookup id).bind fun m => m.artifacts.head?.bind fun art =>
    if db.isCached art.hashes then some (m, art) else none

/-- The models that are actually downloaded, one row for each SHA-256 that is declared.
`ids` are the ids of the manifests, as the database lists them. -/
def installedModels (lower : Text → Char → Text → Text) (installs : List InstallDest) :
    List InstalledModel :=
  let models := (db.installed ids).map (db.installedModel installs)
  let bySha := models.foldl (fun rows model => rows.upsert model.sha256 model.merge)
    (∅ : AList fun _ : Text => InstalledModel)
  (bySha.entries.map Sigma.snd).mergeSort fun a b =>
    decide (toLowercase lower a.name ≤ toLowercase lower b.name)

/-! ## Resolved blobs -/

/-- **The blob that declared digests identify**: the cached one with the BLAKE3, or else
the cached one with the SHA-256. -/
def resolvedBlob (h : Hashes) : Option CacheBlob :=
  (if h.hasBlake3 then db.cacheBlobs.find? fun row => row.blake3 = h.blake3 else none).or
    (if h.hasSha256 then db.cacheBlobs.find? fun row => row.sha256 = h.sha256 else none)

/-- A stored manifest with the blob of its first artifact, where the row is the one its
digests lead to in the cache table. -/
def Resolves (m : Document) (art : DocumentArtifact) (row : CacheBlob) : Prop :=
  (∃ id, db.manifests.lookup id = some m) ∧ m.artifacts.head? = some art ∧
    db.resolvedBlob art.hashes = some row

theorem isCached_iff (h : Hashes) : db.isCached h = true ↔ ∃ row, db.resolvedBlob h = some row := by
  have hany : ∀ p : CacheBlob → Bool, db.cacheBlobs.any p = (db.cacheBlobs.find? p).isSome :=
    fun p => Bool.eq_iff_iff.mpr (by rw [List.any_eq_true, List.find?_isSome])
  rw [← Option.isSome_iff_exists]
  unfold isCached resolvedBlob
  rw [hany, hany, Option.isSome_or, Bool.or_comm]
  cases h.hasBlake3 <;> cases h.hasSha256 <;> simp

/-- The listed entries that declare a SHA-256 text, in their order, among which there can be
several rows although the file is the same. -/
def sameSha256 (sha256 : Text) : List (Document × DocumentArtifact) :=
  (db.installed ids).filter fun e => e.2.hashes.sha256 = sha256

/-- The entry that the row of a SHA-256 text shows: the first from Hugging Face, or the
first of all. -/
def shownEntry (sha256 : Text) : Option (Document × DocumentArtifact) :=
  preferred (fun e => "hf:".toList.isPrefixOf e.1.publisher.id) (db.sameSha256 ids sha256)

/-- **The manifests declare alike what they have in the cache**: a manifest with a blob
declares the SHA-256 of that blob; what declares one SHA-256 has one blob; and a
BLAKE3 that a shown manifest declares is cached. -/
structure DeclaresAlike : Prop where
  declares : ∀ m art row, db.Resolves m art row → art.hashes.sha256 = row.sha256
  agree : ∀ m art row m' art' row', db.Resolves m art row → db.Resolves m' art' row' →
    art.hashes.sha256 = art'.hashes.sha256 → row = row'
  shown : ∀ sha256 m art, db.shownEntry ids sha256 = some (m, art) → art.hashes.hasBlake3 →
    ∃ row ∈ db.cacheBlobs, row.blake3 = art.hashes.blake3

/-- **The rows are the blobs**: a manifest with a blob is in exactly one row, which
carries the digests of the blob, and two are in one row if and only if they have one blob. -/
structure ListsBlobs (rows : List InstalledModel) : Prop where
  one : ∀ m art row, db.Resolves m art row → ∃ r ∈ rows, (r.Of art ∧
    ∀ r' ∈ rows, r'.Of art → r' = r) ∧ r.blake3 = row.blake3 ∧ r.sha256 = row.sha256
  shared : ∀ m art row m' art' row', db.Resolves m art row → db.Resolves m' art' row' →
    ((∃ r ∈ rows, r.Of art ∧ r.Of art') ↔ row = row')

variable {db ids}

/-- The listed entries are the manifests that have a blob. -/
theorem mem_installed (hids : ids.Perm db.manifests.keys) {m : Document} {art : DocumentArtifact} :
    (m, art) ∈ db.installed ids ↔ ∃ row, db.Resolves m art row := by
  unfold installed
  rw [List.mem_filterMap]
  constructor
  · rintro ⟨id, -, h⟩
    obtain ⟨m', hm, h⟩ := Option.bind_eq_some_iff.mp h
    obtain ⟨art', hart, h⟩ := Option.bind_eq_some_iff.mp h
    by_cases hcached : db.isCached art'.hashes = true
    · rw [if_pos hcached] at h
      cases h
      obtain ⟨row, hrow⟩ := (db.isCached_iff _).mp hcached
      exact ⟨row, ⟨id, hm⟩, hart, hrow⟩
    · rw [if_neg hcached] at h
      cases h
  · rintro ⟨row, ⟨id, hm⟩, hart, hrow⟩
    have hmem : id ∈ db.manifests := AList.lookup_isSome.mp (by rw [hm]; rfl)
    refine ⟨id, hids.mem_iff.mpr (AList.mem_keys.mp hmem), ?_⟩
    rw [hm, Option.bind_some, hart, Option.bind_some,
      if_pos ((db.isCached_iff _).mpr ⟨row, hrow⟩)]

/-- A BLAKE3 that is declared and not missing in the cache is the blob's; without one,
the blob of the SHA-256 is looked up. -/
theorem installedBlake3_eq {h : Hashes} {row : CacheBlob} (hrow : db.resolvedBlob h = some row)
    (hcached : h.hasBlake3 → ∃ row ∈ db.cacheBlobs, row.blake3 = h.blake3) :
    db.installedBlake3 h = row.blake3 := by
  unfold resolvedBlob at hrow
  unfold installedBlake3 Db.blake3ForSha256
  cases hb : h.hasBlake3 with
  | true =>
    obtain ⟨row', hmem, hkey⟩ := hcached hb
    rw [hb, if_pos rfl] at hrow
    cases hfind : db.cacheBlobs.find? (fun row => row.blake3 = h.blake3) with
    | none => exact absurd (decide_eq_true hkey) (List.find?_eq_none.mp hfind row' hmem)
    | some row'' =>
      rw [hfind] at hrow
      cases hrow
      have hrow : decide (row.blake3 = h.blake3) = true :=
        List.find?_some (p := fun row : CacheBlob => decide (row.blake3 = h.blake3)) hfind
      exact (of_decide_eq_true hrow).symm
  | false =>
    rw [hb, if_neg Bool.false_ne_true, Option.none_or] at hrow
    cases hs : h.hasSha256 with
    | true =>
      rw [hs, if_pos rfl] at hrow
      rw [hrow]
      rfl
    | false =>
      rw [hs] at hrow
      cases hrow

/-! ## The rows -/

variable (lower : Text → Char → Text → Text) (installs : List InstallDest)

/-- The models that declare a SHA-256 text, merged in the order of their manifests into one row. -/
def mergedModels (db : ShareDb) (ids : List Text) (installs : List InstallDest) (sha256 : Text) :
    Option InstalledModel :=
  (((db.installed ids).map (db.installedModel installs)).filter
    fun model => model.sha256 = sha256).foldl
      (fun r model => some (InstalledModel.merge model r)) none

/-- **The rows are the models of each SHA-256 text, merged.** -/
theorem mem_installedModels {r : InstalledModel} :
    r ∈ db.installedModels ids lower installs ↔
      ∃ sha256, db.mergedModels ids installs sha256 = some r := by
  unfold installedModels
  rw [List.mem_mergeSort, List.mem_map]
  constructor
  · rintro ⟨⟨k, r⟩, he, rfl⟩
    exact ⟨k, (AList.lookup_foldl_upsert _ _ _ _ k).symm.trans (AList.mem_entries_iff.mp he)⟩
  · rintro ⟨k, h⟩
    exact ⟨⟨k, r⟩, AList.mem_entries_iff.mpr ((AList.lookup_foldl_upsert _ _ _ _ k).trans h), rfl⟩

/-- **A row shows the preferred entry** of its SHA-256 text. -/
theorem mergedModels_shown {sha256 : Text} {r : InstalledModel}
    (h : db.mergedModels ids installs sha256 = some r) :
    ∃ e, db.shownEntry ids sha256 = some e ∧ r.sha256 = sha256 ∧
      r.blake3 = db.installedBlake3 e.2.hashes := by
  obtain ⟨shown, path, hshown, rfl⟩ := InstalledModel.mergeAll_shown h
  have hkey := of_decide_eq_true (List.mem_filter.mp (mem_of_preferred hshown)).2
  rw [List.filter_map, preferred_map] at hshown
  obtain ⟨e, he, rfl⟩ := Option.map_eq_some_iff.mp hshown
  exact ⟨e, he, hkey, rfl⟩

/-- What is listed has a row. -/
theorem exists_row {e : Document × DocumentArtifact} (h : e ∈ db.installed ids) :
    ∃ r ∈ db.installedModels ids lower installs, r.Of e.2 := by
  have hmem : db.installedModel installs e ∈
      ((db.installed ids).map (db.installedModel installs)).filter
        fun model => model.sha256 = e.2.hashes.sha256 :=
    List.mem_filter.mpr ⟨List.mem_map.mpr ⟨e, h, rfl⟩, decide_eq_true rfl⟩
  obtain ⟨r, hr⟩ := AList.foldl_merge_isSome InstalledModel.merge (List.ne_nil_of_mem hmem)
  obtain ⟨-, -, hkey, -⟩ := mergedModels_shown installs hr
  exact ⟨r, (mem_installedModels lower installs).mpr ⟨_, hr⟩, hkey⟩

theorem resolvedBlob_mem {h : Hashes} {row : CacheBlob} (hrow : db.resolvedBlob h = some row) :
    row ∈ db.cacheBlobs := by
  obtain hrow | ⟨-, hrow⟩ := Option.or_eq_some_iff.mp hrow
  all_goals
    split at hrow
    · exact List.mem_of_find?_eq_some hrow
    · cases hrow

/-- **The rows are the blobs if and only if the manifests declare alike.** The row of a
SHA-256 text is made of the cached manifests that declare it; what it shows is the
first of them from Hugging Face, or the first. -/
theorem installedModels_lists_iff (hids : ids.Perm db.manifests.keys) :
    (∀ r ∈ db.installedModels ids lower installs,
        db.mergedModels ids installs r.sha256 = some r) ∧
      (db.ListsBlobs (db.installedModels ids lower installs) ↔ db.DeclaresAlike ids) := by
  -- a row of the list is the merge of the group under its own SHA-256, and there is one row a group
  have hmerged : ∀ r ∈ db.installedModels ids lower installs,
      db.mergedModels ids installs r.sha256 = some r := by
    intro r hr
    obtain ⟨k, hk⟩ := (mem_installedModels lower installs).mp hr
    obtain ⟨-, -, hkey, -⟩ := mergedModels_shown installs hk
    rw [hkey]
    exact hk
  have huniq : ∀ r ∈ db.installedModels ids lower installs,
      ∀ r' ∈ db.installedModels ids lower installs, r'.sha256 = r.sha256 → r' = r := by
    intro r hr r' hr' hkey
    have h := hmerged r' hr'
    rw [hkey, hmerged r hr] at h
    exact (Option.some.inj h).symm
  refine ⟨hmerged, fun h => ⟨fun m art row hres => ?_, fun m art row m' art' row' hres hres' hsha => ?_,
    fun sha256 m art hshown hb => ?_⟩, fun h => ⟨fun m art row hres => ?_,
    fun m art row m' art' row' hres hres' => ⟨?_, fun heq => ?_⟩⟩⟩
  -- the list is right, so the declared digests are: each of the three conditions is read off a row
  -- that must exist
  · obtain ⟨r, -, ⟨hof, -⟩, -, hsha⟩ := h.one m art row hres
    exact hof.symm.trans hsha
  · obtain ⟨r, hr, ⟨hof, -⟩, -, -⟩ := h.one m art row hres
    exact (h.shared _ _ _ _ _ _ hres hres').mp ⟨r, hr, hof, hof.trans hsha⟩
  · obtain ⟨hmem, hkey⟩ := List.mem_filter.mp (mem_of_preferred hshown)
    obtain ⟨row, hres⟩ := (mem_installed hids).mp hmem
    obtain ⟨r, hr, ⟨hof, -⟩, hblake, -⟩ := h.one m art row hres
    obtain ⟨e, he, -, hrblake⟩ := mergedModels_shown installs (hmerged r hr)
    have hrkey : r.sha256 = sha256 := hof.trans (of_decide_eq_true hkey)
    rw [hrkey, hshown] at he
    cases he
    refine ⟨row, resolvedBlob_mem hres.2.2, ?_⟩
    rw [← hblake, hrblake]
    exact if_pos hb
  -- conversely the group of a resolved artifact has a row, whose shown blob is any member's by
  -- `agree`
  · obtain ⟨r, hr, hof⟩ := exists_row lower installs ((mem_installed hids).mpr ⟨row, hres⟩)
    obtain ⟨⟨m', art'⟩, he, -, hblake⟩ := mergedModels_shown installs (hmerged r hr)
    obtain ⟨hmem, hkey⟩ := List.mem_filter.mp (mem_of_preferred he)
    obtain ⟨row', hres'⟩ := (mem_installed hids).mp hmem
    have hsha : art'.hashes.sha256 = art.hashes.sha256 := (of_decide_eq_true hkey).trans hof
    have hrow := h.agree _ _ _ _ _ _ hres' hres hsha
    refine ⟨r, hr, ⟨hof, fun r' hr' hof' => huniq r hr r' hr' (hof'.trans hof.symm)⟩, ?_,
      hof.trans (h.declares _ _ _ hres)⟩
    rw [hblake, installedBlake3_eq hres'.2.2 (h.shown _ _ _ he), hrow]
  · rintro ⟨r, -, hof, hof'⟩
    exact h.agree _ _ _ _ _ _ hres hres' (hof.symm.trans hof')
  · obtain ⟨r, hr, hof⟩ := exists_row lower installs ((mem_installed hids).mpr ⟨row, hres⟩)
    refine ⟨r, hr, hof, ?_⟩
    have hsha := h.declares _ _ _ hres
    rw [heq] at hsha
    exact hof.trans (hsha.trans (h.declares _ _ _ hres').symm)

end ShareDb

/-! ## Two shared files -/

/-- Two files that are both cached, under manifests that declare their BLAKE3 and some text
as their SHA-256. -/
def twoSharedFiles (sha256 sha256' : Text) : List ShareOp := [
  .insertManifest (oneFileManifest "mdl_p2p_a".toList false ⟨List.replicate 64 'a', sha256, []⟩),
  .insertManifest (oneFileManifest "mdl_p2p_b".toList false ⟨List.replicate 64 'b', sha256', []⟩),
  .upsertCacheBlob ⟨List.replicate 64 'a', List.replicate 64 '1', 3⟩,
  .upsertCacheBlob ⟨List.replicate 64 'b', List.replicate 64 '2', 5⟩]

/-- The ids of the two manifests, in the order of their listing. -/
def twoSharedIds : List Text := ["mdl_p2p_b".toList, "mdl_p2p_a".toList]

/-- The tables with the right SHA-256 texts, a different one for each file. -/
def declaredFiles : ShareDb :=
  ShareDb.run (twoSharedFiles (List.replicate 64 '1') (List.replicate 64 '2'))

/-- The tables with none, so that both files are found under the empty text. -/
def undeclaredFiles : ShareDb := ShareDb.run (twoSharedFiles [] [])

/-- The rows of the two files, as the library lists them. -/
def twoSharedRows (db : ShareDb) : List InstalledModel :=
  db.installedModels twoSharedIds (fun _ c _ => [c]) []

/-- Two manifests that declare the digests their blobs have are listed with those. -/
theorem declared_rows_list : declaredFiles.ListsBlobs (twoSharedRows declaredFiles) := by
  have hids : twoSharedIds.Perm declaredFiles.manifests.keys := by decide +kernel
  refine (ShareDb.installedModels_lists_iff (fun _ c _ => [c]) [] hids).2.mpr ⟨?_, ?_, ?_⟩
  · intro m art row h
    exact (show ∀ e ∈ declaredFiles.installed twoSharedIds,
        ∀ row ∈ declaredFiles.resolvedBlob e.2.hashes, e.2.hashes.sha256 = row.sha256 by
      decide +kernel) _ ((ShareDb.mem_installed hids).mpr ⟨row, h⟩) row h.2.2
  · intro m art row m' art' row' h h'
    exact (show ∀ e ∈ declaredFiles.installed twoSharedIds,
        ∀ e' ∈ declaredFiles.installed twoSharedIds,
        ∀ row ∈ declaredFiles.resolvedBlob e.2.hashes,
        ∀ row' ∈ declaredFiles.resolvedBlob e'.2.hashes,
        e.2.hashes.sha256 = e'.2.hashes.sha256 → row = row' by
      decide +kernel) _ ((ShareDb.mem_installed hids).mpr ⟨row, h⟩) _
        ((ShareDb.mem_installed hids).mpr ⟨row', h'⟩) row h.2.2 row' h'.2.2
  · intro sha256 m art hshown hb
    exact (show ∀ e ∈ declaredFiles.installed twoSharedIds, e.2.hashes.hasBlake3 = true →
        ∃ row ∈ declaredFiles.cacheBlobs, row.blake3 = e.2.hashes.blake3 by
      decide +kernel) _ (List.mem_filter.mp (mem_of_preferred hshown)).1 hb

/-- **Two files are listed as one**, because neither manifest declares a SHA-256. -/
theorem two_files_one_row : ¬ undeclaredFiles.ListsBlobs (twoSharedRows undeclaredFiles) := by
  intro h
  have hres : undeclaredFiles.Resolves
      (oneFileManifest "mdl_p2p_a".toList false ⟨List.replicate 64 'a', [], []⟩) _
      ⟨List.replicate 64 'a', List.replicate 64 '1', 3, none⟩ :=
    ⟨⟨"mdl_p2p_a".toList, by decide +kernel⟩, rfl, by decide +kernel⟩
  have hres' : undeclaredFiles.Resolves
      (oneFileManifest "mdl_p2p_b".toList false ⟨List.replicate 64 'b', [], []⟩) _
      ⟨List.replicate 64 'b', List.replicate 64 '2', 5, none⟩ :=
    ⟨⟨"mdl_p2p_b".toList, by decide +kernel⟩, rfl, by decide +kernel⟩
  obtain ⟨r, hr, ⟨hof, -⟩, -, -⟩ := h.one _ _ _ hres
  have hrow := (h.shared _ _ _ _ _ _ hres hres').mp ⟨r, hr, hof, hof⟩
  exact absurd hrow (by decide +kernel)

end Atlas
