import Mathlib.Data.List.DropRight
import Atlas.KeyedTable
import Atlas.ManifestSigning
import Atlas.ReadBack
import Atlas.Slugs
import Atlas.Transition

/-!
# The store of a registry

A registry keeps the manifests that are published to it: each is written to a file of its
own in one directory, named after its id, and held in two tables, by id and by the slug of
its model's name. When the registry starts it fills the tables from the files, in whatever
order the directory lists them.

The file system is a table of the JSON documents at paths; a file that is no JSON document
is one that is no manifest.
-/

namespace Atlas

open AList Text Transition

/-! ## Names and paths -/

/-- The components of a path; empty ones and dots lead nowhere. -/
def pathComponents (path : Text) : List Text :=
  (path.splitOnP fun c => c = '/').filter fun c => !(c = [] || c = ['.'])

/-- A path below a directory; an absolute one replaces it; separators at its end and doubled
ones make no component. -/
def joinPath (dir : List Text) (path : Text) : List Text :=
  if path.head? = some '/' then pathComponents path else dir ++ pathComponents path

/-- What follows the last dot of a file name, if something precedes it. -/
def pathExtension (name : Text) : Option Text :=
  let stem := name.rdropWhile fun c => !(c = '.')
  if name = "..".toList ∨ stem = [] ∨ stem = ['.'] then none
  else some (name.rtakeWhile fun c => !(c = '.'))

/-- The name of the file of a manifest, which is its id with an extension. -/
def manifestFile (manifestId : Text) : Text := manifestId ++ ".json".toList

/-- The name the update descriptor has by default, beside the manifests in the same directory. -/
def releaseManifestFile : Text := "release-manifest.json".toList

/-- The files of the registry: the JSON documents that are at paths. -/
abbrev Files := AList fun _ : List Text => Json.Tree

/-- The names of the files in a directory, not those in its subdirectories, in the order of
the listing. -/
def readDir (fs : Files) (dir : List Text) : List Text :=
  fs.keys.filterMap fun path => if path.dropLast = dir then path.getLast? else none

/-! ## The store -/

/-- How many manifests a store holds at most; a new one beyond that is refused. -/
def MAX_STORED_MANIFESTS : ℕ := 50000

/-- The manifests of the registry, in memory and as files of a directory. -/
structure ManifestStore where
  dir : List Text
  manifests : AList fun _ : Text => Document
  /-- Model slug to manifest ids; the last is the latest. -/
  bySlug : AList fun _ : Text => List Text

/-- The slug a manifest is listed under, made of its model's name. -/
def Document.slug (m : Document) : Text := slugify m.model.name

namespace ManifestStore

/-- A manifest that was loaded: listed last under its slug, and found under its id. -/
def add (s : ManifestStore) (m : Document) : ManifestStore :=
  { s with
    bySlug := s.bySlug.insert m.slug (((s.bySlug.lookup m.slug).getD []) ++ [m.manifestId])
    manifests := s.manifests.insert m.manifestId m }

/-- The manifest in a file, if it is one that is loaded. -/
def loadFile (fs : Files) (dir : List Text) (name : Text) : Option Document :=
  if pathExtension name = some "json".toList then
    (fs.lookup (dir ++ [name])).bind Document.fromJson
  else none

/-- Fill a store from the files of a directory, in the order they are listed. -/
def load (fs : Files) (dir : List Text) (listing : List Text) : ManifestStore :=
  listing.foldl (fun s name => match loadFile fs dir name with
    | some m => s.add m
    | none => s) ⟨dir, ∅, ∅⟩

/-- Write a manifest to its file and put it into the tables, or say why not. -/
def insert (s : ManifestStore) (fs : Files) (m : Document) :
    Except Text (Files × ManifestStore) :=
  if s.manifests.lookup m.manifestId = none ∧
      MAX_STORED_MANIFESTS ≤ s.manifests.entries.length then
    .error ("manifest store is full (".toList ++ (toString MAX_STORED_MANIFESTS).toList ++
      " entries)".toList)
  else
    let ids := (s.bySlug.lookup m.slug).getD []
    .ok (fs.insert (joinPath s.dir (manifestFile m.manifestId)) (Document.codec.encode m),
      { s with
        bySlug := s.bySlug.insert m.slug
          (if m.manifestId ∈ ids then ids else ids ++ [m.manifestId])
        manifests := s.manifests.insert m.manifestId m })

/-- The manifest of an id, which is the last one stored under it. -/
def getManifest (s : ManifestStore) (id : Text) : Option Document := s.manifests.lookup id

/-- The latest manifest of a model, by its slug, which is the last one listed under it, if
that one is stored. -/
def modelLatest (s : ManifestStore) (slug : Text) : Option Document :=
  ((s.bySlug.lookup slug).bind List.getLast?).bind s.manifests.lookup

end ManifestStore

/-! ## Publishing -/

/-- What a request to publish is answered with, a status and what goes with it. -/
inductive PublishResponse where
  /-- 201, with the key ids whose signatures verified. -/
  | created (manifestId : Text) (validSignatures : List Text)
  /-- 400, `invalid manifest: …`. -/
  | invalidManifest
  /-- 400, `validation failed: …`. -/
  | validationFailed (e : Error)
  /-- 422, `manifest has no valid signature; …`. -/
  | unsigned
  /-- 500, `store error: …`. -/
  | storeError (message : Text)
  deriving DecidableEq

/-- A registry's files, and its store, which is built from them when it starts. -/
structure ManifestRegistry where
  fs : Files
  store : ManifestStore

namespace ManifestRegistry

variable (S : SigningScheme)

/-- Publish a manifest: it is read, validated, its signatures checked, and then stored and
written to its file. -/
def publish (r : ManifestRegistry) (body : Json.Tree) : PublishResponse × ManifestRegistry :=
  match Document.fromJson body with
  | none => (.invalidManifest, r)
  | some manifest =>
    match manifest.manifest.validate with
    | .error e => (.validationFailed e, r)
    | .ok () =>
      let report := verifyManifest S manifest
      if report.validSignatures = [] then (.unsigned, r)
      else
        match r.store.insert r.fs manifest with
        | .error e => (.storeError e, r)
        | .ok (fs, store) => (.created manifest.manifestId report.validSignatures, ⟨fs, store⟩)

/-- The registry after a request, which a refused one leaves as it was. -/
def step (r : ManifestRegistry) (body : Json.Tree) : ManifestRegistry := (r.publish S body).2

/-- The request is accepted, and its manifest stored. -/
def Accepts (r : ManifestRegistry) (body : Json.Tree) : Prop :=
  ∃ id signatures, (r.publish S body).1 = .created id signatures

/-- A registry that has just started, and has loaded what its directory holds. -/
def start (fs : Files) (dir : List Text) : ManifestRegistry := ⟨fs, .load fs dir (readDir fs dir)⟩

end ManifestRegistry

/-- No file of a directory is a manifest yet, so that publishing into the directory meets
only what it has written itself. -/
def Fresh (fs : Files) (dir : List Text) : Prop :=
  ∀ name doc, fs.lookup (dir ++ [name]) = some doc → Document.fromJson doc = none

/-! ## The file of a manifest -/

/-- What validation asks of an id, as far as files are concerned. -/
theorem validId {id : Text} (h : validateManifestId id = .ok ()) :
    id ≠ [] ∧ id.head? ≠ some '.' ∧ '/' ∉ id := by
  unfold validateManifestId at h
  split at h
  · cases h
  · rename_i hempty
    split at h
    · cases h
    · split at h
      · cases h
      · rename_i hdot
        split at h
        · cases h
        · rename_i hall
          refine ⟨fun heq => hempty (heq ▸ rfl), hdot, fun hmem => ?_⟩
          rw [Bool.not_eq_true, Bool.not_eq_false'] at hall
          exact absurd (List.all_eq_true.mp hall '/' hmem) (by decide)

theorem pathComponents_of_not_mem {name : Text} (h : '/' ∉ name) (hne : name ≠ [])
    (hdot : name ≠ ['.']) : pathComponents name = [name] := by
  have hsplit : name.splitOnP (fun c => c = '/') = [name] := by
    refine List.splitOnP_eq_singleton fun c hc => decide_eq_false ?_
    rintro rfl
    exact h hc
  unfold pathComponents
  rw [hsplit]
  refine List.filter_cons_of_pos ?_
  rw [decide_eq_false hne, decide_eq_false hdot]
  rfl

/-- **A manifest's file is in the directory**, under a name of its own. -/
theorem joinPath_manifestFile {id : Text} (h : validateManifestId id = .ok ())
    (dir : List Text) : joinPath dir (manifestFile id) = dir ++ [manifestFile id] := by
  obtain ⟨hne, -, hslash⟩ := validId h
  have hnot : '/' ∉ manifestFile id := by
    intro hmem
    obtain hid | hsuffix := List.mem_append.mp hmem
    · exact hslash hid
    · revert hsuffix
      decide
  have hhead : (manifestFile id).head? ≠ some '/' :=
    fun heq => hnot (List.mem_of_mem_head? heq)
  have hlength : (manifestFile id).length ≠ 1 := by
    unfold manifestFile
    rw [List.length_append]
    exact Nat.ne_of_gt (Nat.lt_of_lt_of_le (by decide) (Nat.le_add_left _ _))
  unfold joinPath
  rw [if_neg hhead, pathComponents_of_not_mem hnot]
  · exact fun heq => hne (List.append_eq_nil_iff.mp heq).1
  · exact fun heq => hlength (by rw [heq]; rfl)

/-- And it is one that is loaded. -/
theorem pathExtension_manifestFile {id : Text} (h : validateManifestId id = .ok ()) :
    pathExtension (manifestFile id) = some "json".toList := by
  obtain ⟨hne, -, -⟩ := validId h
  have hstem : (manifestFile id).rdropWhile (fun c => !(c = '.')) = id ++ ['.'] := by
    unfold manifestFile List.rdropWhile
    simp
  have htake : (manifestFile id).rtakeWhile (fun c => !(c = '.')) = "json".toList := by
    unfold manifestFile List.rtakeWhile
    simp
  unfold pathExtension
  rw [hstem, htake, if_neg]
  rintro (hname | hnil | hdot)
  · have hlength := congrArg List.length hname
    unfold manifestFile at hlength
    rw [List.length_append] at hlength
    exact absurd hlength (Nat.ne_of_gt
      (Nat.lt_of_lt_of_le (by decide : 2 < ".json".toList.length) (Nat.le_add_left _ _)))
  · exact List.cons_ne_nil _ _ (List.append_eq_nil_iff.mp hnil).2
  · exact hne (List.append_left_eq_self.mp hdot)

theorem manifestFile_injective : Function.Injective manifestFile :=
  fun _ _ h => List.append_cancel_right h

theorem validateManifestId_of_validate {m : Manifest} (h : m.validate = .ok ()) :
    validateManifestId m.manifestId = .ok () := by
  unfold Manifest.validate at h
  by_cases hversion : m.schemaVersion = SCHEMA_VERSION
  · cases hid : validateManifestId m.manifestId with
    | ok u => rfl
    | error e => simp [hid, hversion, bind, Except.bind] at h
  · simp [hversion, bind, Except.bind] at h

/-! ## Listing a directory and loading its files -/

theorem mem_readDir {fs : Files} {dir : List Text} {name : Text} :
    name ∈ readDir fs dir ↔ ∃ doc, fs.lookup (dir ++ [name]) = some doc := by
  unfold readDir
  rw [List.mem_filterMap]
  constructor
  · rintro ⟨path, hpath, hname⟩
    split at hname
    · rename_i hdir
      rw [← hdir, List.dropLast_append_getLast? name hname]
      exact Option.isSome_iff_exists.mp (AList.lookup_isSome.mpr hpath)
    · cases hname
  · rintro ⟨doc, hdoc⟩
    refine ⟨dir ++ [name], ?_, ?_⟩
    · exact AList.lookup_isSome.mp (by rw [hdoc]; rfl)
    · rw [List.dropLast_concat, if_pos rfl, List.getLast?_concat]

theorem nodup_readDir (fs : Files) (dir : List Text) : (readDir fs dir).Nodup := by
  refine fs.keys_nodup.filterMap fun path path' name hname hname' => ?_
  split at hname
  · rename_i hdir
    split at hname'
    · rename_i hdir'
      rw [← List.dropLast_append_getLast? name hname, hdir,
        ← List.dropLast_append_getLast? name hname', hdir']
    · cases hname'
  · cases hname

namespace ManifestStore

theorem load_eq (fs : Files) (dir listing : List Text) : load fs dir listing =
    (listing.filterMap (loadFile fs dir)).foldl add ⟨dir, ∅, ∅⟩ := by
  rw [List.foldl_filterMap]
  unfold load
  congr 1
  funext s name
  cases loadFile fs dir name <;> rfl

/-- **A store holds the last of the manifests with an id**, of those that were added. -/
theorem lookup_add (dir : List Text) (ms : List Document) (id : Text) :
    (ms.foldl add ⟨dir, ∅, ∅⟩).manifests.lookup id =
      (ms.filter fun m => m.manifestId = id).getLast? := by
  induction ms using List.reverseRecOn with
  | nil => exact AList.lookup_empty id
  | append_singleton ms m ih =>
    rw [List.foldl_append, List.filter_append]
    show ((ms.foldl add ⟨dir, ∅, ∅⟩).manifests.insert m.manifestId m).lookup id = _
    by_cases hid : m.manifestId = id
    · rw [List.filter_cons, if_pos (decide_eq_true hid), List.filter_nil, List.getLast?_concat,
        ← hid]
      exact AList.lookup_insert _
    · rw [List.filter_cons, if_neg fun heq => hid (of_decide_eq_true heq), List.filter_nil,
        List.append_nil, ← ih]
      exact AList.lookup_insert_ne fun heq => hid heq.symm

/-- And lists under a slug the ids of those with it, in order. -/
theorem lookup_add_slug (dir : List Text) (ms : List Document) (slug : Text) :
    ((ms.foldl add ⟨dir, ∅, ∅⟩).bySlug.lookup slug).getD [] =
      (ms.filter fun m => m.slug = slug).map fun m => m.manifestId := by
  induction ms using List.reverseRecOn with
  | nil =>
    show (AList.lookup slug (∅ : AList fun _ : Text => List Text)).getD [] = []
    rw [AList.lookup_empty]
    rfl
  | append_singleton ms m ih =>
    rw [List.foldl_append, List.filter_append, List.map_append, ← ih]
    show (((ms.foldl add ⟨dir, ∅, ∅⟩).bySlug.insert m.slug _).lookup slug).getD [] = _
    by_cases hslug : m.slug = slug
    · rw [List.filter_cons, if_pos (decide_eq_true hslug), List.filter_nil, ← hslug,
        AList.lookup_insert]
      rfl
    · rw [List.filter_cons, if_neg fun heq => hslug (of_decide_eq_true heq), List.filter_nil,
        List.map_nil, List.append_nil, AList.lookup_insert_ne fun heq => hslug heq.symm]

end ManifestStore

theorem ManifestStore.lookup_add_ne_nil (dir : List Text) (ms : List Document) (slug : Text) :
    (ms.foldl add ⟨dir, ∅, ∅⟩).bySlug.lookup slug ≠ some [] := by
  induction ms using List.reverseRecOn with
  | nil => exact fun h => nomatch (AList.lookup_empty slug).symm.trans h
  | append_singleton ms m ih =>
    rw [List.foldl_append]
    intro h
    by_cases heq : slug = m.slug
    · rw [heq] at h
      have hids := Option.some.inj ((AList.lookup_insert _).symm.trans h)
      exact List.cons_ne_nil _ _ (List.append_eq_nil_iff.mp hids).2
    · exact ih ((AList.lookup_insert_ne heq).symm.trans h)

/-! ## What a registry has kept -/

/-- The ids under a slug after one of them was published; an id that is listed already keeps
its place, and a new one goes last. -/
def listedIds (id : Text) (ids : List Text) : List Text := if id ∈ ids then ids else ids ++ [id]

theorem mem_listedIds {id id' : Text} {ids : List Text} :
    id' ∈ listedIds id ids ↔ id' ∈ ids ∨ id' = id := by
  unfold listedIds
  split
  · rename_i hmem
    exact ⟨.inl, fun h => h.elim (fun h => h) fun heq => heq ▸ hmem⟩
  · rw [List.mem_append, List.mem_singleton]

theorem nodup_listedIds {id : Text} {ids : List Text} (h : ids.Nodup) :
    (listedIds id ids).Nodup := by
  unfold listedIds
  split
  · exact h
  · rename_i hnot
    exact List.nodup_append_comm.mp (List.nodup_cons.mpr ⟨hnot, h⟩)

/-- The registry after a manifest was written and put into the tables. -/
def ManifestRegistry.put (r : ManifestRegistry) (m : Document) : ManifestRegistry :=
  ⟨r.fs.insert (joinPath r.store.dir (manifestFile m.manifestId)) (Document.codec.encode m),
    { r.store with
      bySlug := r.store.bySlug.insert m.slug
        (listedIds m.manifestId ((r.store.bySlug.lookup m.slug).getD []))
      manifests := r.store.manifests.insert m.manifestId m }⟩

namespace ManifestRegistry

variable {S : SigningScheme} {r : ManifestRegistry} {body : Json.Tree}

theorem insert_eq_ok {m : Document} {fs : Files} {store : ManifestStore}
    (h : r.store.insert r.fs m = .ok (fs, store)) : (⟨fs, store⟩ : ManifestRegistry) = r.put m := by
  unfold ManifestStore.insert at h
  split at h
  · cases h
  · dsimp only at h
    obtain ⟨rfl, rfl⟩ := Prod.mk.inj (Except.ok.inj h)
    rfl

/-- A signed manifest is accepted while there is room. -/
theorem accepts_of {m : Document} (hbody : Document.fromJson body = some m)
    (hvalid : m.manifest.validate = .ok ()) (hsigned : (verifyManifest S m).validSignatures ≠ [])
    (hroom : r.store.manifests.entries.length < MAX_STORED_MANIFESTS) :
    r.Accepts S body ∧ r.step S body = r.put m := by
  have hinsert : ∃ fs store, r.store.insert r.fs m = .ok (fs, store) := by
    unfold ManifestStore.insert
    rw [if_neg fun hfull => Nat.not_le_of_lt hroom hfull.2]
    exact ⟨_, _, rfl⟩
  obtain ⟨fs, store, hinsert⟩ := hinsert
  unfold Accepts step publish
  rw [hbody]
  dsimp only
  rw [hvalid]
  dsimp only
  rw [if_neg hsigned, hinsert]
  exact ⟨⟨_, _, rfl⟩, insert_eq_ok hinsert⟩

/-- **A request is refused and changes nothing, or its manifest is kept.** -/
theorem publish_cases (S : SigningScheme) (r : ManifestRegistry) (body : Json.Tree) :
    (r.step S body = r ∧ ¬ r.Accepts S body) ∨
      ∃ m, Document.fromJson body = some m ∧ m.manifest.validate = .ok () ∧
        r.Accepts S body ∧ r.step S body = r.put m := by
  unfold step Accepts publish
  cases Document.fromJson body with
  | none => exact .inl ⟨rfl, nofun⟩
  | some m =>
    cases hvalid : m.manifest.validate with
    | error e =>
      refine .inl ⟨by dsimp only; rw [hvalid], ?_⟩
      dsimp only
      rw [hvalid]
      nofun
    | ok u =>
      dsimp only
      rw [hvalid]
      dsimp only
      split
      · exact .inl ⟨rfl, nofun⟩
      · split
        · exact .inl ⟨rfl, nofun⟩
        · rename_i fs store hinsert
          exact .inr ⟨m, rfl, hvalid, ⟨_, _, rfl⟩, insert_eq_ok hinsert⟩

/-- **What a registry has after some manifests were published**: under each id the last of
them, in its file too; under each slug the ids that were published with it. -/
structure Kept (r : ManifestRegistry) (dir : List Text) (docs : List Document) : Prop where
  stored : r.store.dir = dir
  manifests : ∀ id, r.store.manifests.lookup id =
    (docs.filter fun m => m.manifestId = id).getLast?
  slugs : ∀ slug id, id ∈ (r.store.bySlug.lookup slug).getD [] ↔
    ∃ m ∈ docs, m.manifestId = id ∧ m.slug = slug
  nodup : ∀ slug, ((r.store.bySlug.lookup slug).getD []).Nodup
  present : ∀ slug, r.store.bySlug.lookup slug ≠ some []
  valid : ∀ m ∈ docs, validateManifestId m.manifestId = .ok () ∧
    Document.fromJson (Document.codec.encode m) = some m
  written : ∀ id m, r.store.manifests.lookup id = some m →
    r.fs.lookup (dir ++ [manifestFile id]) = some (Document.codec.encode m)
  only : ∀ name doc m, r.fs.lookup (dir ++ [name]) = some doc → Document.fromJson doc = some m →
    name = manifestFile m.manifestId ∧ r.store.manifests.lookup m.manifestId = some m

theorem load_of_fresh {fs : Files} {dir : List Text} (h : Fresh fs dir) (listing : List Text) :
    ManifestStore.load fs dir listing = ⟨dir, ∅, ∅⟩ := by
  have hnone : listing.filterMap (ManifestStore.loadFile fs dir) = [] := by
    refine List.filterMap_eq_nil_iff.mpr fun name _ => ?_
    unfold ManifestStore.loadFile
    split
    · cases hdoc : fs.lookup (dir ++ [name]) with
      | none => rfl
      | some doc => exact h name doc hdoc
    · rfl
  rw [ManifestStore.load_eq, hnone]
  rfl

theorem kept_start {fs : Files} {dir : List Text} (h : Fresh fs dir) :
    (start fs dir).Kept dir [] := by
  have hstart : start fs dir = ⟨fs, ⟨dir, ∅, ∅⟩⟩ := by
    unfold start
    rw [load_of_fresh h]
  rw [hstart]
  refine ⟨rfl, fun id => AList.lookup_empty id, fun slug id => ?_, fun slug => ?_,
    fun slug hslug => ?_, fun m hm => (by cases hm), fun id m hm => ?_, fun name doc m hdoc hm => ?_⟩
  · dsimp only
    rw [AList.lookup_empty]
    exact ⟨fun hid => absurd hid List.not_mem_nil, fun ⟨m, hm, _⟩ => absurd hm List.not_mem_nil⟩
  · dsimp only
    rw [AList.lookup_empty]
    exact List.nodup_nil
  · cases (AList.lookup_empty slug).symm.trans hslug
  · cases (AList.lookup_empty id).symm.trans hm
  · cases (h name doc hdoc).symm.trans hm

/-- The manifest kept under an id was published. -/
theorem Kept.mem_docs {dir : List Text} {docs : List Document} (h : r.Kept dir docs) {id : Text}
    {m : Document} (hm : r.store.manifests.lookup id = some m) :
    m ∈ docs ∧ m.manifestId = id := by
  rw [h.manifests] at hm
  obtain ⟨hmem, hid⟩ := List.mem_filter.mp (List.mem_of_getLast? hm)
  exact ⟨hmem, of_decide_eq_true hid⟩

/-- What was published is kept, if not the manifest then a later one with its id. -/
theorem Kept.isSome_lookup {dir : List Text} {docs : List Document} (h : r.Kept dir docs)
    {m : Document} (hm : m ∈ docs) :
    ∃ m', r.store.manifests.lookup m.manifestId = some m' := by
  rw [h.manifests]
  have hne : (docs.filter fun m' => m'.manifestId = m.manifestId) ≠ [] :=
    List.ne_nil_of_mem (List.mem_filter.mpr ⟨hm, decide_eq_true rfl⟩)
  exact ⟨_, List.getLast?_eq_some_getLast hne⟩

/-- **Publishing a manifest keeps it.** -/
theorem Kept.put {dir : List Text} {docs : List Document} (h : r.Kept dir docs) {m : Document}
    (hbody : Document.fromJson body = some m) (hvalid : m.manifest.validate = .ok ()) :
    (r.put m).Kept dir (docs ++ [m]) := by
  have hid : validateManifestId m.manifestId = .ok () := validateManifestId_of_validate hvalid
  have hread := Document.fromJson_encode hbody
  have hfs : (r.put m).fs =
      r.fs.insert (dir ++ [manifestFile m.manifestId]) (Document.codec.encode m) := by
    show r.fs.insert (joinPath r.store.dir _) _ = _
    rw [h.stored, joinPath_manifestFile hid]
  have hmanifests (id : Text) : (r.put m).store.manifests.lookup id =
      if id = m.manifestId then some m else r.store.manifests.lookup id := by
    show (r.store.manifests.insert m.manifestId m).lookup id = _
    split
    · rename_i heq
      rw [heq]
      exact AList.lookup_insert _
    · rename_i hne
      exact AList.lookup_insert_ne hne
  have hslugs (slug : Text) : ((r.put m).store.bySlug.lookup slug).getD [] =
      if slug = m.slug then
        listedIds m.manifestId ((r.store.bySlug.lookup m.slug).getD [])
      else (r.store.bySlug.lookup slug).getD [] := by
    show ((r.store.bySlug.insert m.slug _).lookup slug).getD [] = _
    by_cases heq : slug = m.slug
    · rw [if_pos heq, heq, AList.lookup_insert]
      rfl
    · rw [if_neg heq, AList.lookup_insert_ne heq]
  have hfile {path : List Text} (hne : path ≠ dir ++ [manifestFile m.manifestId]) :
      (r.put m).fs.lookup path = r.fs.lookup path := by
    rw [hfs]
    exact AList.lookup_insert_ne hne
  have hown : (r.put m).fs.lookup (dir ++ [manifestFile m.manifestId]) =
      some (Document.codec.encode m) := by
    rw [hfs]
    exact AList.lookup_insert _
  -- file names differ when ids do, so the insertion leaves every other document's file alone
  have hname {name name' : Text} (hne : name ≠ name') : dir ++ [name] ≠ dir ++ [name'] :=
    fun heq => hne (List.cons.inj (List.append_cancel_left heq)).1
  -- the seven facts of `Kept` in turn: the manifest map, the slug lists (membership, no id twice,
  -- never empty), the documents, the files written, and nothing else in the directory
  refine ⟨h.stored, fun id => ?_, fun slug id => ?_, fun slug => ?_, fun slug hnil => ?_,
    fun m' hm' => ?_, fun id m' hm' => ?_, fun name doc m' hdoc hm' => ?_⟩
  · rw [hmanifests, List.filter_append, h.manifests]
    by_cases heq : m.manifestId = id
    · rw [if_pos heq.symm, List.filter_cons, if_pos (decide_eq_true heq), List.filter_nil,
        List.getLast?_concat]
    · rw [if_neg (Ne.symm heq), List.filter_cons, if_neg fun hid => heq (of_decide_eq_true hid),
        List.filter_nil, List.append_nil]
  · rw [hslugs]
    split
    · rename_i heq
      rw [mem_listedIds, ← heq, h.slugs]
      constructor
      · rintro (⟨m', hm', hrest⟩ | rfl)
        · exact ⟨m', List.mem_append_left _ hm', hrest⟩
        · exact ⟨m, List.mem_append_right _ (List.mem_singleton_self m), rfl, heq.symm⟩
      · rintro ⟨m', hm', hmid, hslug⟩
        obtain hold | hnew := List.mem_append.mp hm'
        · exact .inl ⟨m', hold, hmid, hslug⟩
        · exact .inr (by rw [← hmid, List.mem_singleton.mp hnew])
    · rename_i hne
      rw [h.slugs]
      constructor
      · rintro ⟨m', hm', hrest⟩
        exact ⟨m', List.mem_append_left _ hm', hrest⟩
      · rintro ⟨m', hm', hmid, hslug⟩
        obtain hold | hnew := List.mem_append.mp hm'
        · exact ⟨m', hold, hmid, hslug⟩
        · rw [List.mem_singleton.mp hnew] at hslug
          exact absurd hslug.symm hne
  · rw [hslugs]
    split
    · exact nodup_listedIds (h.nodup m.slug)
    · exact h.nodup slug
  · by_cases heq : slug = m.slug
    · have hlisted := hslugs slug
      rw [if_pos heq, hnil] at hlisted
      have hmem : m.manifestId ∈
          listedIds m.manifestId ((r.store.bySlug.lookup m.slug).getD []) :=
        mem_listedIds.mpr (.inr rfl)
      rw [← hlisted] at hmem
      cases hmem
    · exact h.present slug ((AList.lookup_insert_ne heq).symm.trans hnil)
  · obtain hold | hnew := List.mem_append.mp hm'
    · exact h.valid m' hold
    · rw [List.mem_singleton.mp hnew]
      exact ⟨hid, hread⟩
  · rw [hmanifests] at hm'
    split at hm'
    · rename_i heq
      rw [heq, ← Option.some.inj hm']
      exact hown
    · rename_i hne
      rw [hfile (hname (manifestFile_injective.ne hne))]
      exact h.written id m' hm'
  · by_cases heq : name = manifestFile m.manifestId
    · rw [heq, hown] at hdoc
      rw [← Option.some.inj hdoc, hread] at hm'
      obtain rfl := Option.some.inj hm'
      exact ⟨heq, by rw [hmanifests, if_pos rfl]⟩
    · rw [hfile (hname heq)] at hdoc
      obtain ⟨hfilename, hlookup⟩ := h.only name doc m' hdoc hm'
      have hne : m'.manifestId ≠ m.manifestId := fun hids => heq (hids ▸ hfilename)
      exact ⟨hfilename, by rw [hmanifests, if_neg hne]; exact hlookup⟩

end ManifestRegistry

end Atlas
