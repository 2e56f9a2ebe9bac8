import Atlas.HubBundles
import Atlas.WorldwideShare

/-!
# A choice to share

The user opts a model into the mesh in three ways: by the switch in the Library, while
importing a file, and while renaming a model. Each of them ends in a row of
`share_overrides`, under a BLAKE3; whether a blob is shared is decided from the row
under *its* BLAKE3.

`choice_takes_effect` says what the choice is good for. When no manifest that mentions
the blob needs a confirmation, and the digest the row is under is the blob's own, the
blob is shared, and it stays so until the user takes the choice back, the blob is
evicted, or it turns out to belong to such a manifest. No other blob's row changes.

But an import and a rename also store a manifest, and that can decide about other blobs
(`ShareCall.Touches`). A rename decides about the blobs of its model. An import stores a
manifest of the imported file only (`LocalFile.namesBlob_manifest`); what it decides about
others comes from the manifest of the same id that it replaces, and from rows with the
SHA-256 of the file. `choice_decides_more` has an instance of each.
-/

namespace Atlas

open Text

/-! ## What the user says about a model -/

/-- User-supplied metadata; empty fields fall back to what was parsed from the file. -/
structure LocalShareMeta where
  title : Option Text
  family : Option Text
  quant : Option Text
  architecture : Option Text
  /-- License tag. Empty means unknown. -/
  license : Option Text
  description : Option Text
  /-- Where the model came from. -/
  originUrl : Option Text
  /-- Skip the Hugging Face lookup. -/
  skipHfMatch : Bool
  /-- Opt this model into the public mesh right away. -/
  publish : Bool
  deriving DecidableEq, Repr

/-- The identity of a model, as its header and its file name have it. -/
structure ParsedModel where
  title : Text
  family : Option Text
  quant : Option Text
  architecture : Option Text
  format : Option Text
  license : Option Text
  sourceUrl : Option Text
  deriving DecidableEq, Repr

namespace LocalShareMeta

/-- Trim an optional text, and drop it if nothing is left; blanks around a text never make
it count as given. -/
def nonempty (o : Option Text) : Option Text := o.bind optText

/-- What the user says takes precedence over what the file says; the format is the file's in
any case. -/
def mergeInto (self : LocalShareMeta) (parsed : ParsedModel) : ParsedModel where
  title := (nonempty self.title).getD parsed.title
  family := (nonempty self.family).or parsed.family
  quant := (nonempty self.quant).or parsed.quant
  architecture := (nonempty self.architecture).or parsed.architecture
  format := parsed.format
  license := (nonempty self.license).or parsed.license
  sourceUrl := (nonempty self.originUrl).or parsed.sourceUrl

end LocalShareMeta

open LocalShareMeta

/-! ## The manifests that are stored -/

variable (D : Digests) (lower : Text → Char → Text → Text) (upper : Char → Text) (now : Text)

/-- A manifest of a local file. The declared license drives the redistribution class. -/
def titledManifest (parsed : ParsedModel) (filename : Text) (description : Option Text)
    (hashes : Hashes) (size : ℕ) : Document :=
  let filled (o : Option Text) : Option Text := o.filter fun s => !(trim s).isEmpty
  let format := parsed.format.or (formatFromName filename)
  let licenseTag := nonempty parsed.license
  { schemaVersion := SCHEMA_VERSION
    -- the full digest, so that two imports never overwrite each other
    manifestId := "mdl_local_".toList ++ hashes.blake3
    publisher := ⟨"local".toList, some "Imported locally".toList, []⟩
    model :=
      { name :=
          if (trim parsed.title).isEmpty then sanitizeLocalName filename else trim parsed.title
        family := filled parsed.family
        architecture := filled parsed.architecture
        revision := none
        format := format
        quantization := filled parsed.quant }
    license :=
      { spdx := licenseTag.getD "unknown".toList
        licenseUrl := none
        redistribution := .forLicense lower licenseTag }
    access := ⟨false, false, [.iroh, .httpsMirror, .localFile]⟩
    artifacts := [
      { path := sanitizeLocalName filename
        role := "weights".toList
        sizeBytes := size
        hashes := hashes
        chunking := none
        format := format
        sources := [] }]
    provenance := some
      { origin := some "local-import".toList
        modelCardRef := filled parsed.sourceUrl
        note := description
        malwareBadgesObserved := none
        generatedAt := some now }
    signatures := [] }

/-- The manifest of a file on the hub that has the given SHA-256, of the first model that
has one. `details` are the models that a search by the file's name found and whose details
could be read, in order; there are none if the search failed. -/
def matchLocalToHf (details : List HfModelDetail) (sha256 : Text) : Option Document := do
  let (detail, f) ← details.findSome? fun detail =>
    (detail.files.find? fun f => f.sha256 = some sha256).map fun f => (detail, f)
  -- an error ends the search, as one of the search itself does
  (manifestFor D lower upper now detail f).toOption

/-- A file the user imports, with what is found out about it. -/
structure LocalFile where
  filename : Text
  /-- The digests of its bytes. -/
  hashes : Hashes
  size : ℕ
  /-- What the header and the name of the file say about the model. -/
  parsed : ParsedModel
  /-- The models that the hub has under the name of the file. -/
  hubDetails : List HfModelDetail
  deriving DecidableEq, Repr

/-- The cache row of an imported file, as its commit writes it. -/
def LocalFile.casMeta (file : LocalFile) : BlobMeta :=
  ⟨file.hashes.blake3, file.hashes.sha256, file.size⟩

/-- The manifest an import stores: the matching one, or else one that is made up. A
manifest that has no BLAKE3 for its first artifact gets the one of the file. -/
def LocalFile.manifest (file : LocalFile) (info : LocalShareMeta) : Document :=
  let matched := if info.skipHfMatch then none
    else matchLocalToHf D lower upper now file.hubDetails file.hashes.sha256
  let found := matched.getD (titledManifest lower now (info.mergeInto file.parsed) file.filename
    (nonempty info.description) file.hashes file.size)
  { found with
    artifacts := found.artifacts.modifyHead fun art =>
      if !art.hashes.hasBlake3 then
        { art with hashes := { art.hashes with blake3 := file.hashes.blake3 } }
      else art }

/-- A manifest with what the user says about the model: a title names the model and its
first file, and the other fields are kept where nothing is given. -/
def LocalShareMeta.retitle (info : LocalShareMeta) (m : Document) : Document :=
  let note := nonempty info.description
  let origin := nonempty info.originUrl
  { m with
    artifacts := match nonempty info.title with
      | some t => m.artifacts.modifyHead fun art => { art with path := sanitizeLocalName t }
      | none => m.artifacts
    model := { m.model with
      name := (nonempty info.title).getD m.model.name
      family := (nonempty info.family).or m.model.family
      quantization := (nonempty info.quant).or m.model.quantization
      architecture := (nonempty info.architecture).or m.model.architecture }
    license := match nonempty info.license with
      | some l => { m.license with redistribution := .forLicense lower (some l), spdx := l }
      | none => m.license
    provenance :=
      if note.isSome || origin.isSome then
        let p := m.provenance.getD ⟨some "local-import".toList, none, none, none, some now⟩
        some { p with note := note.or p.note, modelCardRef := origin.or p.modelCardRef }
      else m.provenance }

/-! ## The three ways -/

namespace ShareDb

/-- Import a manifest: validate it and store it; an invalid one leaves the tables as they are. -/
def importManifest (m : Document) (db : ShareDb) : Except Error ShareDb := do
  m.manifest.validate
  pure (db.insertManifest m)

/-- The switch of a model: stop sharing it, or opt it in. -/
def setModelShared (blake3 sha256 : Text) (on : Bool) (db : ShareDb) : ShareDb :=
  db.setShareOverride blake3 sha256 on

/-- Import a local file, which is brought into the cache, with its manifest, its cache row
and what the user chose about sharing it. -/
def importLocalFileWithMeta (file : LocalFile) (info : LocalShareMeta) (db : ShareDb) :
    Except Error ShareDb := do
  let manifest := file.manifest D lower upper now info
  let db ← db.importManifest manifest
  let db := if manifest.artifacts.isEmpty then db else db.upsertCacheBlob file.casMeta
  pure <| if info.publish then db.setShareOverride file.casMeta.blake3 file.hashes.sha256 true
    else db

/-- Retitle, relicense or describe a model that is already in the Library. -/
def renameModel (manifestId : Text) (info : LocalShareMeta) (db : ShareDb) :
    Except Error ShareDb :=
  match db.manifests.lookup manifestId with
  | none => .error (.manifestNotFound manifestId)
  | some m => do
    let m := info.retitle lower now m
    let db ← db.importManifest m
    match m.artifacts.head? with
    | some art =>
      if art.hashes.hasBlake3 || art.hashes.hasSha256 then
        -- under the digest the manifest has, which need not be the blob's
        pure (db.setShareOverride art.hashes.blake3 art.hashes.sha256 info.publish)
      else pure db
    | none => pure db

end ShareDb

/-! ## What a blob's manifests are -/

namespace ShareDb

variable {db : ShareDb} {blake3 : Text}

/-- A manifest asks for a confirmation before the blob is shared, by its BLAKE3 or by the
SHA-256 that the cache has for it. -/
def Gates (db : ShareDb) (m : DocumentBody) (blake3 : Text) : Prop :=
  m.needsConfirmation = true ∧ m.NamesBlob blake3 (db.cachedSha256 blake3)

/-- **Storing a manifest concerns a blob**: it is mentioned by that manifest, or by the one
it takes the place of. -/
def Concerns (db : ShareDb) (m : Document) (blake3 : Text) : Prop :=
  ∃ m', (m' = m ∨ (db.Imported m' ∧ m'.manifestId = m.manifestId)) ∧
    m'.NamesBlob blake3 (db.cachedSha256 blake3)

/-- What is imported afterwards is the manifest that was stored, or was there before. -/
theorem imported_of_insertManifest {m m' : Document} (h : (db.insertManifest m).Imported m') :
    m' = m ∨ db.Imported m' := by
  replace h : (db.manifests.insert m.manifestId m).lookup m'.manifestId = some m' := h
  by_cases hid : m'.manifestId = m.manifestId
  · rw [hid, AList.lookup_insert] at h
    exact Or.inl (Option.some.inj h).symm
  · rw [AList.lookup_insert_ne hid] at h
    exact Or.inr h

theorem recognized_of_insertManifest {m : Document}
    (h : (db.insertManifest m).Recognized blake3) :
    db.Recognized blake3 ∨ db.Gates m.toDocumentBody blake3 := by
  obtain ⟨m', himported, hgates⟩ := h
  obtain rfl | himported := imported_of_insertManifest himported
  · exact Or.inr hgates
  · exact Or.inl ⟨m', himported, hgates⟩

theorem recognized_of_deleteManifest {id : Text}
    (h : (db.deleteManifest id).Recognized blake3) : db.Recognized blake3 := by
  obtain ⟨m', himported, hgates⟩ := h
  refine ⟨m', ?_, hgates⟩
  replace himported : (db.manifests.erase id).lookup m'.manifestId = some m' := himported
  by_cases hid : m'.manifestId = id
  · rw [hid, AList.lookup_erase] at himported
    cases himported
  · rw [AList.lookup_erase_ne hid] at himported
    exact himported

/-- Updating a row keeps its key. -/
theorem find?_map_updateRow (m : BlobMeta) (rows : List CacheBlob) (b : Text) :
    (rows.map fun row => if row.blake3 = m.blake3 then Db.updateRow m row else row).find?
        (fun row => row.blake3 = b) =
      (rows.find? fun row => row.blake3 = b).map fun row =>
        if row.blake3 = m.blake3 then Db.updateRow m row else row := by
  rw [List.find?_map]
  congr 2
  funext row
  show decide ((if row.blake3 = m.blake3 then Db.updateRow m row else row).blake3 = b) = _
  split <;> rfl

/-- A commit leaves the other rows as they are. -/
theorem cachedSha256_upsert_of_ne {m : BlobMeta} (hne : blake3 ≠ m.blake3) :
    (db.upsertCacheBlob m).cachedSha256 blake3 = db.cachedSha256 blake3 := by
  unfold cachedSha256
  show (((Db.upsertCacheBlob m db.cacheBlobs).find? fun row => row.blake3 = blake3).map
    CacheBlob.sha256).getD [] = _
  unfold Db.upsertCacheBlob
  split
  · rw [find?_map_updateRow, Option.map_map]
    cases hfound : db.cacheBlobs.find? fun row => row.blake3 = blake3 with
    | none => rfl
    | some row =>
      have hname := List.find?_some hfound
      rw [decide_eq_true_iff] at hname
      show (if row.blake3 = m.blake3 then Db.updateRow m row else row).sha256 = _
      rw [if_neg fun h => hne (hname.symm.trans h)]
      rfl
  · rw [List.find?_append, List.find?_singleton, if_neg (by simpa using hne.symm), Option.or_none]

/-- The SHA-256 of a blob is the last one that was recorded for it. -/
theorem cachedSha256_upsert_self (m : BlobMeta) :
    (db.upsertCacheBlob m).cachedSha256 m.blake3 =
      if m.sha256 ≠ [] then m.sha256 else db.cachedSha256 m.blake3 := by
  unfold cachedSha256
  show (((Db.upsertCacheBlob m db.cacheBlobs).find? fun row => row.blake3 = m.blake3).map
    CacheBlob.sha256).getD [] = _
  unfold Db.upsertCacheBlob
  split
  · next hany =>
    rw [find?_map_updateRow, Option.map_map]
    cases hfound : db.cacheBlobs.find? fun row => row.blake3 = m.blake3 with
    | none =>
      obtain ⟨row, hrow, hname⟩ := List.any_eq_true.mp hany
      exact absurd hname (List.find?_eq_none.mp hfound row hrow)
    | some row =>
      have hname := List.find?_some hfound
      rw [decide_eq_true_iff] at hname
      show (if row.blake3 = m.blake3 then Db.updateRow m row else row).sha256 = _
      rw [if_pos hname]
      rfl
  · next hany =>
    have hnone : (db.cacheBlobs.find? fun row => row.blake3 = m.blake3) = none :=
      List.find?_eq_none.mpr fun row hrow hname =>
        hany (List.any_eq_true.mpr ⟨row, hrow, hname⟩)
    rw [List.find?_append, hnone, Option.none_or, List.find?_singleton,
      if_pos (decide_eq_true rfl)]
    show m.sha256 = if m.sha256 ≠ [] then m.sha256 else []
    by_cases hsha : m.sha256 = []
    · rw [if_neg (not_not.mpr hsha)]
      exact hsha
    · rw [if_pos hsha]

/-- **A manifest that does not concern a blob leaves its manifests as they are.** -/
theorem Joined.manifestsOf_insertManifest (h : db.Joined) {m : Document}
    (hm : ¬ db.Concerns m blake3) :
    (db.insertManifest m).manifestsOf blake3 = db.manifestsOf blake3 := by
  -- no row of either manifest has a digest of the blob
  have hother : ∀ a ∈ db.artifacts,
      (a.blake3 = blake3 ∨ (db.cachedSha256 blake3 ≠ [] ∧ a.sha256 = db.cachedSha256 blake3)) →
        a.manifestId ≠ m.manifestId := by
    rintro a ha hdigest hid
    obtain ⟨old, hold, x, hx, rfl⟩ := (h.rows a).mp ha
    exact hm ⟨old, Or.inr ⟨hold, hid⟩, x, hx, hdigest⟩
  unfold manifestsOf
  show List.filterMap (fun a => (db.manifests.insert m.manifestId m).lookup a.manifestId)
    (((db.artifacts.filter fun a => a.manifestId ≠ m.manifestId) ++ m.artifacts.map fun a =>
      (⟨m.manifestId, a.hashes.blake3, a.hashes.sha256⟩ : ArtifactRow)).filter fun a =>
        a.blake3 = blake3 ∨ (db.cachedSha256 blake3 ≠ [] ∧ a.sha256 = db.cachedSha256 blake3)) = _
  have hnew : (m.artifacts.map fun a =>
      (⟨m.manifestId, a.hashes.blake3, a.hashes.sha256⟩ : ArtifactRow)).filter (fun a =>
        a.blake3 = blake3 ∨ (db.cachedSha256 blake3 ≠ [] ∧ a.sha256 = db.cachedSha256 blake3)) =
          [] := by
    rw [List.filter_eq_nil_iff]
    rintro a ha hdigest
    obtain ⟨x, hx, rfl⟩ := List.mem_map.mp ha
    exact hm ⟨m, Or.inl rfl, x, hx, of_decide_eq_true hdigest⟩
  rw [List.filter_append, hnew, List.append_nil, List.filter_filter]
  have hsame : db.artifacts.filter (fun a =>
      decide (a.blake3 = blake3 ∨
        (db.cachedSha256 blake3 ≠ [] ∧ a.sha256 = db.cachedSha256 blake3)) &&
          decide (a.manifestId ≠ m.manifestId)) =
      db.artifacts.filter fun a =>
        a.blake3 = blake3 ∨ (db.cachedSha256 blake3 ≠ [] ∧ a.sha256 = db.cachedSha256 blake3) := by
    refine List.filter_congr fun a ha => ?_
    by_cases hdigest : a.blake3 = blake3 ∨
        (db.cachedSha256 blake3 ≠ [] ∧ a.sha256 = db.cachedSha256 blake3)
    · rw [decide_eq_true hdigest, decide_eq_true (hother a ha hdigest)]
      rfl
    · rw [decide_eq_false hdigest]
      rfl
  rw [hsame]
  refine List.filterMap_congr fun a ha => ?_
  obtain ⟨hrow, hdigest⟩ := List.mem_filter.mp ha
  exact AList.lookup_insert_ne (hother a hrow (of_decide_eq_true hdigest))

/-- Nor does it decide about the blob. -/
theorem Joined.isBlobShareable_insertManifest (h : db.Joined) {m : Document}
    (hm : ¬ db.Concerns m blake3) :
    (db.insertManifest m).isBlobShareable blake3 = db.isBlobShareable blake3 :=
  isBlobShareable_congr (h.manifestsOf_insertManifest hm) rfl rfl

/-- Caching one blob says nothing about another. -/
theorem isBlobShareable_upsertCacheBlob {m : BlobMeta} (hne : blake3 ≠ m.blake3) :
    (db.upsertCacheBlob m).isBlobShareable blake3 = db.isBlobShareable blake3 := by
  refine isBlobShareable_congr ?_ rfl rfl
  unfold manifestsOf
  rw [cachedSha256_upsert_of_ne hne]
  rfl

end ShareDb

/-! ## A choice that stands -/

/-- **An operation overturns a choice to share a blob**: it takes the choice back, forgets
the blob, or makes it known that a confirmation is needed. -/
def ShareOp.Overturns (db : ShareDb) (blake3 : Text) : ShareOp → Prop
  | insertManifest m => db.Gates m.toDocumentBody blake3
  | upsertCacheBlob m => m.blake3 = blake3 ∧ ∃ m', db.Imported m' ∧
      m'.needsConfirmation = true ∧ m'.NamesBlob blake3 m.sha256
  | deleteCacheBlob b => b = blake3
  | setShareOverride b _ shared => b = blake3 ∧ shared = false
  -- revoking every confirmed share stops those that were confirmed
  | clearAllGatedConfirmations => db.isGatedShareConfirmed blake3 = true
  | deleteManifest _ | confirmGatedShare _ _ | setShareGated _ => False

namespace ShareDb

variable {db : ShareDb} {blake3 : Text}

/-- No operation of a run overturns the choice, each judged on the tables it meets. -/
def Spared (blake3 : Text) : ShareDb → List ShareOp → Prop
  | _, [] => True
  | db, op :: ops => ¬ op.Overturns db blake3 ∧ Spared blake3 (op.apply db) ops

/-- **The user's choice to share a blob stands**: it is on record, and nothing asks for a
confirmation. -/
structure Chosen (db : ShareDb) (blake3 : Text) : Prop where
  joined : db.Joined
  choice : db.shareOverride blake3 = some true
  plain : ¬ db.Recognized blake3

/-- Then the blob is shared. -/
theorem Chosen.isBlobShareable (h : db.Chosen blake3) : db.isBlobShareable blake3 = true :=
  (isBlobShareable_of_shared h.choice).mpr fun hgated =>
    absurd (h.joined.blobIsGatedOrRestrictive_iff.mp hgated) h.plain

/-- The choice that is on record after one more was made. -/
theorem shareOverride_insert (b : Text) (o : ShareOverride) :
    ({ db with overrides := db.overrides.insert b o } : ShareDb).shareOverride blake3 =
      if blake3 = b then some o.shared else db.shareOverride blake3 := by
  split
  · next hb =>
    subst hb
    exact (choice_of_insert o).1
  · next hb =>
    unfold shareOverride
    rw [AList.lookup_insert_ne hb]

/-- What a commit of a blob can make known. -/
theorem recognized_of_upsertCacheBlob {m : BlobMeta}
    (h : (db.upsertCacheBlob m).Recognized blake3) :
    db.Recognized blake3 ∨ (m.blake3 = blake3 ∧ ∃ m', db.Imported m' ∧
      m'.needsConfirmation = true ∧ m'.NamesBlob blake3 m.sha256) := by
  obtain ⟨m', himported, hneeds, hnames⟩ := h
  by_cases hb : blake3 = m.blake3
  · subst hb
    rw [cachedSha256_upsert_self] at hnames
    split at hnames
    · exact Or.inr ⟨rfl, m', himported, hneeds, hnames⟩
    · exact Or.inl ⟨m', himported, hneeds, hnames⟩
  · rw [cachedSha256_upsert_of_ne hb] at hnames
    exact Or.inl ⟨m', himported, hneeds, hnames⟩

/-- **One step**: a choice stands until it is overturned. -/
theorem Chosen.apply (h : db.Chosen blake3) {op : ShareOp} (hop : ¬ op.Overturns db blake3) :
    (op.apply db).Chosen blake3 := by
  -- three parts: the row's join, the choice, and that no manifest makes the blob gated
  refine ⟨h.joined.apply op, ?_, ?_⟩
  · cases op with
    | deleteCacheBlob b =>
      show ((db.overrides.erase b).lookup blake3).map ShareOverride.shared = some true
      rw [AList.lookup_erase_ne (Ne.symm hop)]
      exact h.choice
    | setShareOverride b sha256 shared =>
      refine (shareOverride_insert b _).trans ?_
      split
      · next hb =>
        rw [Bool.eq_true_of_not_eq_false fun hoff => hop ⟨hb.symm, hoff⟩]
      · exact h.choice
    | confirmGatedShare b sha256 =>
      refine (shareOverride_insert b _).trans ?_
      split
      · rfl
      · exact h.choice
    -- clearing drops the confirmed rows alone, and this blob's choice is not one of them
    | clearAllGatedConfirmations =>
      have hkept : ∀ o, db.overrides.lookup blake3 = some o → o.confirmedGated = false := by
        intro o hlookup
        refine Bool.eq_false_iff.mpr fun hconfirmed => hop ?_
        show ((db.overrides.lookup blake3).map ShareOverride.confirmedGated).getD false = true
        rw [hlookup]
        exact hconfirmed
      show (db.clearAllGatedConfirmations.overrides.lookup blake3).map ShareOverride.shared = _
      rw [lookup_clear hkept]
      exact h.choice
    | _ => exact h.choice
  · cases op with
    | insertManifest m =>
      intro hrecognized
      exact (recognized_of_insertManifest hrecognized).elim h.plain hop
    | deleteManifest id =>
      exact fun hrecognized => h.plain (recognized_of_deleteManifest hrecognized)
    | upsertCacheBlob m =>
      intro hrecognized
      exact (recognized_of_upsertCacheBlob hrecognized).elim h.plain hop
    | deleteCacheBlob b =>
      rintro ⟨m', himported, hneeds, hnames⟩
      have hsha : (db.deleteCacheBlob b).cachedSha256 blake3 = db.cachedSha256 blake3 :=
        cachedSha256_deleteCacheBlob (Ne.symm hop)
      rw [show (ShareOp.deleteCacheBlob b).apply db = db.deleteCacheBlob b from rfl, hsha] at hnames
      exact h.plain ⟨m', himported, hneeds, hnames⟩
    | _ => exact h.plain

/-- **A run**: as long as nothing overturns it, the choice stands. -/
theorem Chosen.run {ops : List ShareOp} (h : db.Chosen blake3) (hops : Spared blake3 db ops) :
    (ops.foldl ShareOp.apply db).Chosen blake3 := by
  induction ops generalizing db with
  | nil => exact h
  | cons op ops ih =>
    obtain ⟨hop, hops⟩ := hops
    exact ih (h.apply hop) hops

end ShareDb

/-! ## What a call stores -/

section Imported

variable {D : Digests} {lower : Text → Char → Text → Text} {upper : Char → Text} {now : Text}

/-- **What is found on the hub** is a manifest of one file, under its SHA-256 in lower case. -/
theorem hashes_of_matchLocalToHf {details : List HfModelDetail} {sha256 : Text} {m : Document}
    (h : matchLocalToHf D lower upper now details sha256 = some m) :
    m.artifacts.map (fun a => a.hashes) = [⟨[], toLowercase lower sha256, []⟩] := by
  obtain ⟨⟨detail, f⟩, hfound, hmanifest⟩ := Option.bind_eq_some_iff.mp h
  obtain ⟨detail', -, hfile⟩ := List.exists_of_findSome?_eq_some hfound
  obtain ⟨f', hf, hsame⟩ := Option.map_eq_some_iff.mp hfile
  cases hsame
  have hsha := List.find?_some hf
  rw [decide_eq_true_iff] at hsha
  replace hmanifest : (manifestFor D lower upper now detail f).toOption = some m := hmanifest
  cases hok : manifestFor D lower upper now detail f with
  | error e =>
    rw [hok] at hmanifest
    cases hmanifest
  | ok m' =>
    rw [hok] at hmanifest
    cases hmanifest
    obtain ⟨sha256', hsha', hhashes⟩ := hashes_of_manifestFor hok
    cases hsha.symm.trans hsha'
    exact hhashes

/-- **An import stores a manifest of the imported file only**, under the file's BLAKE3 and
its SHA-256, which may be put in lower case. -/
theorem LocalFile.hashes_manifest (file : LocalFile) (info : LocalShareMeta) :
    ∃ hashes : Hashes,
      (file.manifest D lower upper now info).artifacts.map (fun a => a.hashes) = [hashes] ∧
      hashes.blake3 = file.hashes.blake3 ∧
      hashes.sha256 ∈ [file.hashes.sha256, toLowercase lower file.hashes.sha256] := by
  -- one artifact, whose BLAKE3 is filled in if there is none
  have hfill : ∀ (found : Document) (hashes : Hashes),
      found.artifacts.map (fun a => a.hashes) = [hashes] →
      (found.artifacts.modifyHead fun art =>
        if !art.hashes.hasBlake3 then
          { art with hashes := { art.hashes with blake3 := file.hashes.blake3 } }
        else art).map (fun a => a.hashes) =
          [if !hashes.hasBlake3 then { hashes with blake3 := file.hashes.blake3 } else hashes] := by
    intro found hashes hone
    obtain ⟨art, hart, rfl⟩ := List.map_eq_singleton_iff.mp hone
    rw [hart, List.modifyHead_cons, List.map_singleton]
    cases art.hashes.hasBlake3 <;> rfl
  unfold LocalFile.manifest
  dsimp only
  cases hmatched : (if info.skipHfMatch then none
      else matchLocalToHf D lower upper now file.hubDetails file.hashes.sha256) with
  | none =>
    refine ⟨_, hfill _ file.hashes rfl, ?_, ?_⟩
    · split <;> rfl
    · split <;> exact List.mem_cons_self
  | some m =>
    rw [Option.ite_none_left_eq_some] at hmatched
    exact ⟨_, hfill m _ (hashes_of_matchLocalToHf hmatched.2), rfl,
      List.mem_cons_of_mem _ (List.mem_singleton.mpr rfl)⟩

/-- So of the blobs in the cache it mentions that one, and those whose row has the SHA-256
of the file. -/
theorem LocalFile.namesBlob_manifest {file : LocalFile} {info : LocalShareMeta}
    {blake3 sha256 : Text} (h : (file.manifest D lower upper now info).NamesBlob blake3 sha256) :
    blake3 = file.hashes.blake3 ∨ (sha256 ≠ [] ∧
      sha256 ∈ [file.hashes.sha256, toLowercase lower file.hashes.sha256]) := by
  obtain ⟨hashes, hone, hblake3, hsha256⟩ := file.hashes_manifest (D := D) info
  obtain ⟨art, hart, hdigest⟩ := h
  have hmem := List.mem_map_of_mem (f := fun a => a.hashes) hart
  rw [hone, List.mem_singleton] at hmem
  rw [hmem] at hdigest
  obtain rfl | ⟨hne, rfl⟩ := hdigest
  · exact Or.inl hblake3
  · exact Or.inr ⟨hne, hsha256⟩

end Imported

section Retitle

variable {lower : Text → Char → Text → Text} {now : Text} {info : LocalShareMeta} {m : Document}

/-- A license tag never makes a model restrictive. -/
theorem RedistributionClass.forLicense_open (license : Option Text) :
    RedistributionClass.forLicense lower license ≠ .gatedNoRedistribution ∧
      RedistributionClass.forLicense lower license ≠ .enterprisePrivate := by
  unfold RedistributionClass.forLicense
  cases license with
  | none => exact ⟨nofun, nofun⟩
  | some l =>
    dsimp only
    split <;> exact ⟨nofun, nofun⟩

/-- A new title changes no digest and no source. -/
theorem retitle_artifacts :
    (info.retitle lower now m).artifacts.map (fun a => (a.hashes, a.sources)) =
      m.artifacts.map fun a => (a.hashes, a.sources) := by
  unfold LocalShareMeta.retitle
  dsimp only
  cases nonempty info.title with
  | none => rfl
  | some t =>
    cases m.artifacts with
    | nil => rfl
    | cons art artifacts => rfl

/-- So the model mentions the blobs it did. -/
theorem retitle_namesBlob {blake3 sha256 : Text} :
    (info.retitle lower now m).NamesBlob blake3 sha256 ↔ m.NamesBlob blake3 sha256 := by
  have hmap : ∀ d : Document, d.NamesBlob blake3 sha256 ↔
      ∃ p ∈ d.artifacts.map fun a => (a.hashes, a.sources),
        p.1.blake3 = blake3 ∨ (sha256 ≠ [] ∧ p.1.sha256 = sha256) := by
    intro d
    simp only [DocumentBody.NamesBlob, List.mem_map, exists_exists_and_eq_and]
  rw [hmap, hmap m, retitle_artifacts]

/-- A new license tag makes no model gated. -/
theorem needsConfirmation_of_retitle (h : (info.retitle lower now m).needsConfirmation = true) :
    m.needsConfirmation = true := by
  have hgated : (info.retitle lower now m).isGated = m.isGated := by
    have hmap : ∀ d : Document, d.isGated = (d.access.gated ||
        (d.artifacts.map fun a => (a.hashes, a.sources)).any fun p =>
          p.2.any fun s => s.auth = .token) := by
      intro d
      rw [List.any_map]
      rfl
    rw [hmap, hmap m, retitle_artifacts]
    rfl
  unfold DocumentBody.needsConfirmation at h ⊢
  rw [hgated] at h
  obtain hgated | hrestrictive := Bool.or_eq_true_iff.mp h
  · rw [hgated, Bool.true_or]
  · have hsame : (info.retitle lower now m).license = m.license := by
      unfold DocumentBody.isRestrictive LocalShareMeta.retitle at hrestrictive
      unfold LocalShareMeta.retitle
      dsimp only at hrestrictive ⊢
      cases hlicense : nonempty info.license with
      | none => rfl
      | some l =>
        rw [hlicense] at hrestrictive
        obtain ⟨hgated, hprivate⟩ := @RedistributionClass.forLicense_open lower (some l)
        obtain h | h := Bool.or_eq_true_iff.mp hrestrictive
        · exact absurd (of_decide_eq_true h) hgated
        · exact absurd (of_decide_eq_true h) hprivate
    unfold DocumentBody.isRestrictive at hrestrictive ⊢
    rw [hsame] at hrestrictive
    rw [hrestrictive, Bool.or_true]

end Retitle

/-! ## The three ways, together -/

/-- A call that records a choice, of the three that the application offers. -/
inductive ShareCall where
  | setModelShared (blake3 sha256 : Text) (on : Bool)
  | importLocalFile (file : LocalFile) (info : LocalShareMeta)
  | renameModel (manifestId : Text) (info : LocalShareMeta)

namespace ShareCall

/-- What a call leaves of the tables, or the error that it ends with. -/
def run (db : ShareDb) : ShareCall → Except Error ShareDb
  | setModelShared blake3 sha256 on => .ok (db.setModelShared blake3 sha256 on)
  | importLocalFile file info => db.importLocalFileWithMeta D lower upper now file info
  | renameModel manifestId info => db.renameModel lower now manifestId info

/-- **The call is a choice to share a blob** that needs no confirmation: no manifest that
mentions the blob asks for one, an import is one of the blob's file, and the model that is
renamed has the blob's key as the BLAKE3 of its first artifact. -/
def Publishes (db : ShareDb) (blake3 : Text) : ShareCall → Prop
  | setModelShared b _ on => b = blake3 ∧ on = true ∧ ¬ db.Recognized blake3
  | importLocalFile file info => file.hashes.blake3 = blake3 ∧ info.publish = true ∧
      ∀ m, db.Imported m ∨ m = file.manifest D lower upper now info →
        ¬ (db.upsertCacheBlob file.casMeta).Gates m.toDocumentBody blake3
  | renameModel manifestId info => info.publish = true ∧ ¬ db.Recognized blake3 ∧
      ∃ m art, db.manifests.lookup manifestId = some m ∧ m.artifacts.head? = some art ∧
        art.hashes.hasBlake3 = true ∧ art.hashes.blake3 = blake3

/-- **The manifest of a call can decide about a blob**: a renamed model mentions the blob;
and so does the manifest that an import replaces, or else the blob's row has the SHA-256 of
the imported file. The switch stores no manifest. -/
def Touches (db : ShareDb) (blake3 : Text) : ShareCall → Prop
  | setModelShared .. => False
  | importLocalFile file info =>
    (∃ m, db.Imported m ∧ m.manifestId = (file.manifest D lower upper now info).manifestId ∧
        m.NamesBlob blake3 (db.cachedSha256 blake3)) ∨
      (db.cachedSha256 blake3 ≠ [] ∧
        db.cachedSha256 blake3 ∈ [file.hashes.sha256, toLowercase lower file.hashes.sha256])
  | renameModel manifestId _ => ∃ m, db.manifests.lookup manifestId = some m ∧
      m.NamesBlob blake3 (db.cachedSha256 blake3)

end ShareCall

namespace ShareDb

variable {D : Digests} {lower : Text → Char → Text → Text} {upper : Char → Text} {now : Text}
  {db db' : ShareDb} {blake3 : Text}

/-- A manifest that is imported is valid, and is stored. -/
theorem importManifest_ok {m : Document} (h : db.importManifest m = .ok db') :
    m.manifest.validate = .ok () ∧ db' = db.insertManifest m := by
  unfold importManifest at h
  cases hvalid : m.manifest.validate with
  | error e =>
    rw [hvalid] at h
    cases h
  | ok u =>
    rw [hvalid] at h
    cases h
    exact ⟨rfl, rfl⟩

/-- What is done with the tables after an import is done with the manifest stored. -/
theorem importManifest_bind_ok {m : Document} {f : ShareDb → Except Error ShareDb}
    (h : (db.importManifest m >>= f) = .ok db') :
    m.manifest.validate = .ok () ∧ f (db.insertManifest m) = .ok db' := by
  cases himport : db.importManifest m with
  | error e =>
    rw [himport] at h
    cases h
  | ok d =>
    obtain ⟨hvalid, rfl⟩ := importManifest_ok himport
    rw [himport] at h
    exact ⟨hvalid, h⟩

/-- What an import that publishes leaves. -/
theorem importLocalFileWithMeta_ok {file : LocalFile} {info : LocalShareMeta}
    (hpublish : info.publish = true)
    (h : db.importLocalFileWithMeta D lower upper now file info = .ok db') :
    db' = ((db.insertManifest (file.manifest D lower upper now info)).upsertCacheBlob
      file.casMeta).setShareOverride file.hashes.blake3 file.hashes.sha256 true := by
  obtain ⟨hvalid, hrest⟩ := importManifest_bind_ok h
  -- a valid manifest has an artifact, so the file is indexed
  have hne : ¬ (file.manifest D lower upper now info).artifacts.isEmpty = true := by
    intro hempty
    refine artifacts_ne_nil_of_validate hvalid ?_
    show (file.manifest D lower upper now info).artifacts.map _ = []
    rw [List.isEmpty_iff.mp hempty]
    rfl
  rw [if_neg hne, hpublish] at hrest
  exact (Except.ok.inj hrest).symm

/-- What a rename leaves: the choice is under the digests of the first artifact, as the
manifest has them. -/
theorem renameModel_ok {id : Text} {info : LocalShareMeta} {m : Document}
    {art : DocumentArtifact} (hlookup : db.manifests.lookup id = some m)
    (hart : m.artifacts.head? = some art)
    (hdigest : (art.hashes.hasBlake3 || art.hashes.hasSha256) = true)
    (h : db.renameModel lower now id info = .ok db') :
    db' = (db.insertManifest (info.retitle lower now m)).setShareOverride art.hashes.blake3
      art.hashes.sha256 info.publish := by
  unfold renameModel at h
  rw [hlookup] at h
  obtain ⟨-, hrest⟩ := importManifest_bind_ok h
  have hhead : (info.retitle lower now m).artifacts.head?.map (fun a => (a.hashes, a.sources)) =
      some (art.hashes, art.sources) := by
    rw [← List.head?_map, retitle_artifacts, List.head?_map, hart]
    rfl
  obtain ⟨art', hart', hsame⟩ := Option.map_eq_some_iff.mp hhead
  have hhashes : art'.hashes = art.hashes := congrArg Prod.fst hsame
  rw [hart'] at hrest
  dsimp only at hrest
  rw [hhashes, if_pos hdigest] at hrest
  exact (Except.ok.inj hrest).symm

/-- A choice to share a blob that needs no confirmation stands. -/
theorem Joined.chosen_setShareOverride (h : db.Joined) (hplain : ¬ db.Recognized blake3)
    (sha256 : Text) : (db.setShareOverride blake3 sha256 true).Chosen blake3 where
  joined := h.apply (.setShareOverride blake3 sha256 true)
  choice := (shareOverride_insert blake3 _).trans (if_pos rfl)
  plain := hplain

end ShareDb

variable {D : Digests} {lower : Text → Char → Text → Text} {upper : Char → Text} {now : Text}

/-- A manifest that an import stores concerns no other blob than the import can touch. -/
theorem ShareCall.not_concerns_import {file : LocalFile} {info : LocalShareMeta} {db : ShareDb}
    {b : Text} (hb : b ≠ file.hashes.blake3)
    (h : ¬ (importLocalFile file info).Touches D lower upper now db b) :
    ¬ db.Concerns (file.manifest D lower upper now info) b := by
  rintro ⟨m, rfl | ⟨himported, hid⟩, hnames⟩
  · exact (LocalFile.namesBlob_manifest hnames).elim hb fun hsha => h (Or.inr hsha)
  · exact h (Or.inl ⟨m, himported, hid, hnames⟩)

/-- Nor does the manifest of a renamed model, which takes the place of its own. -/
theorem ShareCall.not_concerns_rename {id : Text} {info : LocalShareMeta} {db : ShareDb}
    {m : Document} {b : Text} (hjoined : db.Joined) (hlookup : db.manifests.lookup id = some m)
    (h : ¬ (renameModel id info).Touches D lower upper now db b) :
    ¬ db.Concerns (info.retitle lower now m) b := by
  rintro ⟨m', rfl | ⟨himported, hid⟩, hnames⟩
  · exact h ⟨m, hlookup, retitle_namesBlob.mp hnames⟩
  · have hkey : m'.manifestId = id := hid.trans (hjoined.key id m hlookup)
    replace himported : db.manifests.lookup m'.manifestId = some m' := himported
    rw [hkey] at himported
    exact h ⟨m', himported, hnames⟩

/-- A call that publishes leaves the tables with its manifest stored, where the choice is
made: nothing there asks for a confirmation, and nothing is decided about another blob but
by that manifest. -/
theorem ShareCall.Publishes.settled {call : ShareCall} {db db' : ShareDb} {blake3 : Text}
    (h : call.Publishes D lower upper now db blake3) (hjoined : db.Joined)
    (hok : call.run D lower upper now db = .ok db') :
    ∃ (d : ShareDb) (sha256 : Text), db' = d.setShareOverride blake3 sha256 true ∧ d.Joined ∧
      ¬ d.Recognized blake3 ∧ d.overrides = db.overrides ∧
      ∀ b ≠ blake3, ¬ call.Touches D lower upper now db b →
        d.isBlobShareable b = db.isBlobShareable b := by
  cases call with
  | setModelShared b sha256 on =>
    obtain ⟨rfl, rfl, hplain⟩ := h
    exact ⟨db, sha256, (Except.ok.inj hok).symm, hjoined, hplain, rfl, fun _ _ _ => rfl⟩
  | importLocalFile file info =>
    obtain ⟨rfl, hpublish, hplain⟩ := h
    refine ⟨_, _, ShareDb.importLocalFileWithMeta_ok hpublish hok,
      (hjoined.insertManifest _).apply (.upsertCacheBlob file.casMeta), ?_, rfl, fun b hb ht => ?_⟩
    · rintro ⟨m, himported, hgates⟩
      exact hplain m (ShareDb.imported_of_insertManifest himported).symm hgates
    · rw [ShareDb.isBlobShareable_upsertCacheBlob hb]
      exact hjoined.isBlobShareable_insertManifest (not_concerns_import hb ht)
  | renameModel id info =>
    obtain ⟨hpublish, hplain, m, art, hlookup, hart, hdigest, rfl⟩ := h
    have hdb := ShareDb.renameModel_ok hlookup hart (by rw [hdigest, Bool.true_or]) hok
    rw [hpublish] at hdb
    refine ⟨_, _, hdb, hjoined.insertManifest _, fun hrecognized => ?_, rfl, fun b _ ht => ?_⟩
    · obtain hold | ⟨hneeds, hnames⟩ := ShareDb.recognized_of_insertManifest hrecognized
      · exact hplain hold
      · refine hplain ⟨m, ?_, needsConfirmation_of_retitle hneeds, retitle_namesBlob.mp hnames⟩
        show db.manifests.lookup m.manifestId = some m
        rw [hjoined.key id m hlookup]
        exact hlookup
    · exact hjoined.isBlobShareable_insertManifest (not_concerns_rename hjoined hlookup ht)

/-- **A choice to share takes effect**, in every state the tables can be in: after the
switch, an import or a rename that publishes a blob, the blob is shared, and it stays so
along every run that does not overturn the choice. The choices about other blobs are as
they were, and so are the decisions, except about the blobs that the call touches: none by
the switch, by an import those that the manifest it replaces mentions or whose row has the
file's SHA-256, and by a rename those that the renamed model mentions. -/
theorem choice_takes_effect (ops : List ShareOp) (call : ShareCall) (blake3 : Text)
    (db' : ShareDb) (hchoice : call.Publishes D lower upper now (ShareDb.run ops) blake3)
    (hok : call.run D lower upper now (ShareDb.run ops) = .ok db') :
    (db'.isBlobShareable blake3 = true ∧ ∀ later, ShareDb.Spared blake3 db' later →
      (later.foldl ShareOp.apply db').isBlobShareable blake3 = true) ∧
    ∀ b ≠ blake3, db'.overrides.lookup b = (ShareDb.run ops).overrides.lookup b ∧
      (¬ call.Touches D lower upper now (ShareDb.run ops) b →
        db'.isBlobShareable b = (ShareDb.run ops).isBlobShareable b) := by
  obtain ⟨d, sha256, rfl, hjoined, hplain, hoverrides, hothers⟩ :=
    ShareCall.Publishes.settled hchoice (ShareDb.joined_run ops) hok
  have hchosen := hjoined.chosen_setShareOverride hplain sha256
  refine ⟨⟨hchosen.isBlobShareable, fun later hlater => (hchosen.run hlater).isBlobShareable⟩,
    fun b hb => ⟨?_, fun ht => ?_⟩⟩
  · rw [← hoverrides]
    exact AList.lookup_insert_ne hb
  · rw [← hothers b hb ht]
    exact ShareDb.isBlobShareable_of_insert hb

/-! ## What else a choice decides -/

/-- Another file, with digests of its own. -/
def otherDigests : Hashes := ⟨List.replicate 64 'b', List.replicate 64 'c', []⟩

/-- A model of two files, whose license allows no sharing, in a manifest that was imported by
hand. -/
def twoFileManifest : Document :=
  let one := oneFileManifest "mdl_two".toList false abcDigests
  let other := oneFileManifest "mdl_two".toList false otherDigests
  { one with
    publisher := ⟨"p2p".toList, none, []⟩
    license := ⟨"unknown".toList, none, .publicDownloadOnly⟩
    artifacts := one.artifacts ++ other.artifacts.map fun a =>
      { a with path := "other.gguf".toList } }

/-- Its two files are cached, after the manifest was imported. -/
def cachedPair : List ShareOp := [
  .insertManifest twoFileManifest,
  .upsertCacheBlob ⟨abcDigests.blake3, abcDigests.sha256, 3⟩,
  .upsertCacheBlob ⟨otherDigests.blake3, otherDigests.sha256, 3⟩]

/-- Say whether a model is published, and under which license, leaving everything else about
it as the file itself tells. -/
def publishUnder (license : Option String) (publish : Bool) : LocalShareMeta :=
  ⟨none, none, none, none, license.map String.toList, none, none, false, publish⟩

/-- A local copy of the one file that a model has on the hub. -/
def hubFile (hashes : Hashes) : LocalFile where
  filename := "model.gguf".toList
  hashes := hashes
  size := 3
  parsed := ⟨[], none, none, none, none, none, none⟩
  hubDetails := [repository [⟨"model.gguf".toList, 3, some hashes.sha256, none⟩]]

/-- An older version of that file was imported, when the hub had that one. -/
def olderVersion : List ShareOp := [
  .insertManifest ((hubFile otherDigests).manifest sampleDigests (fun _ c _ => [c.toLower])
    (fun c => [c.toUpper]) "then".toList (publishUnder none false)),
  .upsertCacheBlob (hubFile otherDigests).casMeta]

/-- A blob of a manifest that declares the SHA-256 of another file: finding the blob in the
cache by its BLAKE3 alone puts that SHA-256 on record. -/
def mistakenRow : List ShareOp := [
  .insertManifest { twoFileManifest with
    artifacts := (oneFileManifest "mdl_two".toList false
      ⟨otherDigests.blake3, abcDigests.sha256, []⟩).artifacts },
  .upsertCacheBlob ⟨otherDigests.blake3, otherDigests.sha256, 3⟩,
  .upsertCacheBlob ⟨otherDigests.blake3, abcDigests.sha256, 3⟩]

/-- A blob was confirmed once, with no manifest that makes it gated. -/
def confirmedFile : List ShareOp := [
  .upsertCacheBlob ⟨abcDigests.blake3, abcDigests.sha256, 3⟩,
  .confirmGatedShare abcDigests.blake3 abcDigests.sha256]

/-- A gated manifest has the SHA-256 of a cached blob, which the cache does not have yet. -/
def halfKnownFile : List ShareOp := [
  .insertManifest (oneFileManifest "mdl_gated".toList true ⟨[], abcDigests.sha256, []⟩),
  .upsertCacheBlob ⟨abcDigests.blake3, [], 3⟩]

/-- The call of a test, with the letter case of ASCII, which is the case mapping of the
library for the names that occur here. -/
def ShareCall.tried (call : ShareCall) (db : ShareDb) : Except Error ShareDb :=
  call.run sampleDigests (fun _ c _ => [c.toLower]) (fun c => [c.toUpper]) "now".toList db

/-- Whether a blob is shared after a call and some operations; nothing when the call itself
fails. -/
def sharedAfter (ops : List ShareOp) (call : ShareCall) (later : List ShareOp) (b : Text) :
    Option Bool :=
  (call.tried (ShareDb.run ops)).toOption.map fun db =>
    (later.foldl ShareOp.apply db).isBlobShareable b

/-- A rename that publishes the first of the two files. -/
theorem renamed_shared :
    ∃ db', (ShareCall.renameModel "mdl_two".toList (publishUnder none true)).tried
        (ShareDb.run cachedPair) = .ok db' ∧
      db'.isBlobShareable abcDigests.blake3 = true ∧
      (db'.setShareGated true).isBlobShareable abcDigests.blake3 = true := by
  have hok : ((ShareCall.renameModel "mdl_two".toList (publishUnder none true)).tried
      (ShareDb.run cachedPair)).toBool = true := by
    decide +kernel
  cases hrun : (ShareCall.renameModel "mdl_two".toList (publishUnder none true)).tried
      (ShareDb.run cachedPair) with
  | error e =>
    rw [hrun] at hok
    cases hok
  | ok db' =>
    have hpublishes : (ShareCall.renameModel "mdl_two".toList (publishUnder none true)).Publishes
        sampleDigests (fun _ c _ => [c.toLower]) (fun c => [c.toUpper]) "now".toList
        (ShareDb.run cachedPair) abcDigests.blake3 := by
      refine ⟨rfl, fun h => ?_, twoFileManifest, _, ?_, rfl, ?_, rfl⟩
      · exact absurd ((ShareDb.joined_run cachedPair).blobIsGatedOrRestrictive_iff.mpr h)
          (by decide +kernel)
      · decide +kernel
      · decide +kernel
    obtain ⟨⟨hshared, hstays⟩, -⟩ := choice_takes_effect cachedPair _ _ db' hpublishes hrun
    exact ⟨db', rfl, hshared, hstays [.setShareGated true] ⟨not_false, trivial⟩⟩

/-- **What a choice does beyond its blob, and what ends it besides the opposite choice.**
A rename that gives a model of two files a license shares the other file too. When a new
version of a file on the hub is imported, its manifest replaces that of the older version,
whose blob is no longer shared; and a blob whose row has the SHA-256 of the imported file
is shared along with it. Revoking the confirmed shares stops a blob that was confirmed and
then switched on; and so does the SHA-256 of a blob, once it is recorded, when a gated
manifest has it. -/
theorem choice_decides_more :
    (∀ ops ∈ [cachedPair, confirmedFile, halfKnownFile],
      (ShareDb.run ops).HasRow abcDigests.blake3 ∧
        (ShareDb.run ops).blobIsGatedOrRestrictive abcDigests.blake3 = false) ∧
    ((ShareDb.run cachedPair).isBlobShareable otherDigests.blake3 = false ∧
      sharedAfter cachedPair (.renameModel "mdl_two".toList (publishUnder (some "mit") true)) []
        otherDigests.blake3 = some true) ∧
    ((ShareDb.run olderVersion).isBlobShareable otherDigests.blake3 = true ∧
      sharedAfter olderVersion (.importLocalFile (hubFile abcDigests) (publishUnder none true)) []
        otherDigests.blake3 = some false) ∧
    ((ShareDb.run mistakenRow).isBlobShareable otherDigests.blake3 = false ∧
      sharedAfter mistakenRow (.importLocalFile (hubFile abcDigests) (publishUnder none true)) []
        otherDigests.blake3 = some true) ∧
    (sharedAfter confirmedFile (.setModelShared abcDigests.blake3 abcDigests.sha256 true) []
        abcDigests.blake3 = some true ∧
      sharedAfter confirmedFile (.setModelShared abcDigests.blake3 abcDigests.sha256 true)
        [.clearAllGatedConfirmations] abcDigests.blake3 = some false) ∧
    sharedAfter halfKnownFile (.setModelShared abcDigests.blake3 abcDigests.sha256 true) []
        abcDigests.blake3 = some true ∧
      sharedAfter halfKnownFile (.setModelShared abcDigests.blake3 abcDigests.sha256 true)
        [.upsertCacheBlob ⟨abcDigests.blake3, abcDigests.sha256, 3⟩] abcDigests.blake3 =
          some false := by
  decide +kernel

end Atlas
