import Atlas.RegistryStore

/-!
# What a registry keeps over a restart

The files of a registry say what was published last under each id, and nothing about when
or under which names before. So a registry that is started again answers for an id what it
answered before (`Kept.getManifest_load`), but the order of the ids under a slug is that
of the directory, and an id that was published under a second name is no longer listed
under the first. `restart_agrees_iff` says for which histories none of this can be seen.

The file of a manifest is its own, and no other's: `publish_touches_own_file_iff`. Only the
file that the registry looks for its update descriptor in is named like one of them.
-/

namespace Atlas

open AList Text Transition ManifestStore

namespace ManifestRegistry

variable {S : SigningScheme} {r : ManifestRegistry} {body : Json.Tree} {dir : List Text}
  {docs : List Document}

/-! ## Loading what was kept -/

/-- **The manifest in a file** is the one kept under the id the file is named after. -/
theorem Kept.loadFile_eq_some (h : r.Kept dir docs) {name : Text} {m : Document} :
    loadFile r.fs dir name = some m ↔
      name = manifestFile m.manifestId ∧ r.store.manifests.lookup m.manifestId = some m := by
  unfold loadFile
  constructor
  · intro hload
    split at hload
    · obtain ⟨doc, hdoc, hm⟩ := Option.bind_eq_some_iff.mp hload
      exact h.only name doc m hdoc hm
    · cases hload
  · rintro ⟨rfl, hm⟩
    obtain ⟨hid, hread⟩ := h.valid m (h.mem_docs hm).1
    rw [if_pos (pathExtension_manifestFile hid), h.written m.manifestId m hm]
    exact hread

/-- What is loaded is what is kept. -/
theorem Kept.mem_loaded (h : r.Kept dir docs) {listing : List Text}
    (hlisting : listing.Perm (readDir r.fs dir)) {m : Document} :
    m ∈ listing.filterMap (loadFile r.fs dir) ↔
      r.store.manifests.lookup m.manifestId = some m := by
  rw [List.mem_filterMap]
  constructor
  · rintro ⟨name, -, hname⟩
    exact (h.loadFile_eq_some.mp hname).2
  · intro hm
    refine ⟨manifestFile m.manifestId, ?_, h.loadFile_eq_some.mpr ⟨rfl, hm⟩⟩
    exact hlisting.mem_iff.mpr (mem_readDir.mpr ⟨_, h.written m.manifestId m hm⟩)

/-- Nothing is loaded twice. -/
theorem Kept.nodup_loaded (h : r.Kept dir docs) {listing : List Text}
    (hlisting : listing.Perm (readDir r.fs dir)) :
    ((listing.filterMap (loadFile r.fs dir)).map fun m => m.manifestId).Nodup := by
  rw [List.map_filterMap]
  refine (hlisting.nodup_iff.mpr (nodup_readDir r.fs dir)).filterMap fun name name' id hid hid' => ?_
  obtain ⟨m, hm, rfl⟩ := Option.map_eq_some_iff.mp hid
  obtain ⟨m', hm', hids⟩ := Option.map_eq_some_iff.mp hid'
  rw [(h.loadFile_eq_some.mp hm).1, (h.loadFile_eq_some.mp hm').1, hids]

/-- **After a restart a registry answers the same for every id.** -/
theorem Kept.getManifest_load (h : r.Kept dir docs) {listing : List Text}
    (hlisting : listing.Perm (readDir r.fs dir)) (id : Text) :
    (load r.fs dir listing).getManifest id = r.store.getManifest id := by
  have hlast : (load r.fs dir listing).getManifest id =
      ((listing.filterMap (loadFile r.fs dir)).filter fun m => m.manifestId = id).getLast? := by
    rw [load_eq]
    exact lookup_add dir _ id
  rw [hlast]
  show _ = r.store.manifests.lookup id
  cases hkept : r.store.manifests.lookup id with
  | none =>
    refine List.getLast?_eq_none_iff.mpr (List.filter_eq_nil_iff.mpr fun m hm hid => ?_)
    have hlookup := (h.mem_loaded hlisting).mp hm
    rw [of_decide_eq_true hid, hkept] at hlookup
    cases hlookup
  | some m =>
    have hid := (h.mem_docs hkept).2
    have hmem : m ∈ (listing.filterMap (loadFile r.fs dir)).filter fun m => m.manifestId = id :=
      List.mem_filter.mpr ⟨(h.mem_loaded hlisting).mpr (hid ▸ hkept), decide_eq_true hid⟩
    rw [List.getLast?_eq_some_getLast (List.ne_nil_of_mem hmem)]
    obtain ⟨hloaded, hlastid⟩ := List.mem_filter.mp (List.getLast_mem (List.ne_nil_of_mem hmem))
    have hlookup := (h.mem_loaded hlisting).mp hloaded
    rw [of_decide_eq_true hlastid, hkept] at hlookup
    exact hlookup.symm

/-! ## Runs -/

/-- **Whatever is asked of a registry, it keeps what it accepted.** -/
theorem kept_of_requests (S : SigningScheme) {fs : Files} (hfresh : Fresh fs dir)
    (requests : List Json.Tree) :
    ∃ docs, (requests.foldl (step S) (start fs dir)).Kept dir docs := by
  induction requests using List.reverseRecOn with
  | nil => exact ⟨[], kept_start hfresh⟩
  | append_singleton requests body ih =>
    obtain ⟨docs, hdocs⟩ := ih
    rw [List.foldl_append]
    obtain ⟨heq, -⟩ | ⟨m, hbody, hvalid, -, heq⟩ :=
      publish_cases S (requests.foldl (step S) (start fs dir)) body
    · exact ⟨docs, by rw [List.foldl_cons, List.foldl_nil, heq]; exact hdocs⟩
    · refine ⟨docs ++ [m], ?_⟩
      rw [List.foldl_cons, List.foldl_nil, heq]
      exact hdocs.put hbody hvalid

/-- And where every request was accepted, that is all of them. -/
theorem kept_of_accepted {fs : Files} (hfresh : Fresh fs dir) {requests : List Json.Tree}
    (haccepted : Along (step S) (Accepts S) requests (start fs dir)) :
    (requests.foldl (step S) (start fs dir)).Kept dir
      (requests.filterMap Document.fromJson) := by
  induction requests using List.reverseRecOn with
  | nil => exact kept_start hfresh
  | append_singleton requests body ih =>
    obtain ⟨hbefore, hlast⟩ := Along.append_singleton.mp haccepted
    rw [List.foldl_append, List.foldl_cons, List.foldl_nil, List.filterMap_append]
    obtain ⟨-, hnot⟩ | ⟨m, hbody, hvalid, -, heq⟩ :=
      publish_cases S (requests.foldl (step S) (start fs dir)) body
    · exact absurd hlast hnot
    · rw [heq, List.filterMap_cons, hbody]
      exact (ih hbefore).put hbody hvalid

/-! ## Slugs -/

/-- **The ids under each slug are those of manifests that now have it**, and the one
published most recently is last. -/
def Current (docs : List Document) (s : ManifestStore) : Prop :=
  ∀ slug ids, s.bySlug.lookup slug = some ids →
    (∀ id ∈ ids, ∃ m, s.getManifest id = some m ∧ m.slug = slug) ∧
    ids.getLast? = ((docs.filter fun m => m.manifestId ∈ ids).getLast?).map fun m => m.manifestId

/-- **A restart cannot be seen**, in whatever order the directory is listed. -/
def SameAfterRestart (dir : List Text) (docs : List Document) (r : ManifestRegistry) : Prop :=
  ∀ listing, listing.Perm (readDir r.fs dir) →
    (∀ id, (load r.fs dir listing).getManifest id = r.store.getManifest id) ∧
    (∀ slug, (load r.fs dir listing).modelLatest slug = r.store.modelLatest slug) ∧
    Current docs r.store ∧ Current docs (load r.fs dir listing)

/-- Each id was published under one slug, and each slug with one id. -/
def OneIdPerSlug (docs : List Document) : Prop :=
  ∀ m ∈ docs, ∀ m' ∈ docs, m.manifestId = m'.manifestId ↔ m.slug = m'.slug

instance decidableOneIdPerSlug (docs : List Document) : Decidable (OneIdPerSlug docs) :=
  inferInstanceAs (Decidable (∀ _ ∈ _, ∀ _ ∈ _, _ ↔ _))

/-- The ids a loaded store lists under a slug. -/
theorem lookup_load_slug (fs : Files) (dir listing : List Text) (slug : Text) :
    ((load fs dir listing).bySlug.lookup slug).getD [] =
      ((listing.filterMap (loadFile fs dir)).filter fun m => m.slug = slug).map
        fun m => m.manifestId := by
  rw [load_eq]
  exact lookup_add_slug dir _ slug

/-- The latest of a model is kept under the last of the ids of its slug. -/
theorem modelLatest_eq (s : ManifestStore) (slug : Text) :
    s.modelLatest slug = (((s.bySlug.lookup slug).getD []).getLast?).bind s.getManifest := by
  unfold modelLatest getManifest
  cases s.bySlug.lookup slug <;> rfl

/-- A list without repetitions whose members are all the same. -/
theorem eq_singleton {ids : List Text} {id : Text} (hnodup : ids.Nodup) (hid : id ∈ ids)
    (hall : ∀ id' ∈ ids, id' = id) : ids = [id] := by
  cases ids with
  | nil => cases hid
  | cons first rest =>
    have hrest : rest = [] := by
      refine List.eq_nil_iff_forall_not_mem.mpr fun id' hid' => ?_
      have hfirst := hall first List.mem_cons_self
      have hother := hall id' (List.mem_cons_of_mem first hid')
      exact (List.nodup_cons.mp hnodup).1 (hfirst ▸ hother ▸ hid')
    rw [hrest, hall first List.mem_cons_self]

/-- Where each slug has one id, a store lists that one. -/
theorem current_of_singletons {s : ManifestStore}
    (hone : ∀ slug id, id ∈ (s.bySlug.lookup slug).getD [] →
      (s.bySlug.lookup slug).getD [] = [id] ∧ (∃ m ∈ docs, m.manifestId = id) ∧
        ∃ m, s.getManifest id = some m ∧ m.slug = slug)
    (hne : ∀ slug, s.bySlug.lookup slug ≠ some []) : Current docs s := by
  intro slug ids hids
  have hget : (s.bySlug.lookup slug).getD [] = ids := by rw [hids]; rfl
  obtain ⟨id, hid⟩ := List.exists_mem_of_ne_nil ids fun hnil => hne slug (hnil ▸ hids)
  obtain ⟨hsingle, ⟨m, hm, hmid⟩, hcurrent⟩ := hone slug id (hget ▸ hid)
  rw [hget] at hsingle
  subst hsingle
  refine ⟨fun id' hid' => by rw [List.mem_singleton.mp hid']; exact hcurrent, ?_⟩
  have hmem : m ∈ docs.filter fun m' => m'.manifestId ∈ [id] :=
    List.mem_filter.mpr ⟨hm, decide_eq_true (hmid ▸ List.mem_singleton_self _)⟩
  have hlast := List.getLast_mem (List.ne_nil_of_mem hmem)
  rw [List.getLast?_eq_some_getLast (List.ne_nil_of_mem hmem), Option.map_some,
    List.mem_singleton.mp (of_decide_eq_true (List.mem_filter.mp hlast).2)]
  rfl

/-- **Where each slug has one id, the store lists it** under its current slug. -/
theorem Kept.singleton (h : r.Kept dir docs) (hone : OneIdPerSlug docs) {slug id : Text}
    (hid : id ∈ (r.store.bySlug.lookup slug).getD []) :
    (r.store.bySlug.lookup slug).getD [] = [id] ∧ (∃ m ∈ docs, m.manifestId = id) ∧
      ∃ m, r.store.getManifest id = some m ∧ m.slug = slug := by
  obtain ⟨m, hm, rfl, rfl⟩ := (h.slugs slug id).mp hid
  refine ⟨eq_singleton (h.nodup m.slug) hid fun id' hid' => ?_, ⟨m, hm, rfl⟩, ?_⟩
  · obtain ⟨m', hm', rfl, hslug⟩ := (h.slugs m.slug id').mp hid'
    exact (hone m' hm' m hm).mpr hslug
  · obtain ⟨m', hm'⟩ := h.isSome_lookup hm
    obtain ⟨hmem, hids⟩ := h.mem_docs hm'
    exact ⟨m', hm', (hone m' hmem m hm).mp hids⟩

/-- A loaded store lists what is kept, under its slug. -/
theorem Kept.mem_lookup_load (h : r.Kept dir docs) {listing : List Text}
    (hlisting : listing.Perm (readDir r.fs dir)) {slug id : Text} :
    id ∈ ((load r.fs dir listing).bySlug.lookup slug).getD [] ↔
      ∃ m, r.store.manifests.lookup id = some m ∧ m.slug = slug := by
  rw [lookup_load_slug, List.mem_map]
  constructor
  · rintro ⟨m, hm, rfl⟩
    obtain ⟨hloaded, hslug⟩ := List.mem_filter.mp hm
    exact ⟨m, (h.mem_loaded hlisting).mp hloaded, of_decide_eq_true hslug⟩
  · rintro ⟨m, hm, rfl⟩
    obtain ⟨-, rfl⟩ := h.mem_docs hm
    exact ⟨m, List.mem_filter.mpr ⟨(h.mem_loaded hlisting).mpr hm, decide_eq_true rfl⟩, rfl⟩

/-- A loaded store lists nothing twice. -/
theorem Kept.nodup_lookup_load (h : r.Kept dir docs) {listing : List Text}
    (hlisting : listing.Perm (readDir r.fs dir)) (slug : Text) :
    (((load r.fs dir listing).bySlug.lookup slug).getD []).Nodup := by
  rw [lookup_load_slug]
  exact (h.nodup_loaded hlisting).sublist (List.Sublist.map _ List.filter_sublist)

/-- And the same of a store that is loaded again. -/
theorem Kept.singleton_load (h : r.Kept dir docs) (hone : OneIdPerSlug docs)
    {listing : List Text} (hlisting : listing.Perm (readDir r.fs dir)) {slug id : Text}
    (hid : id ∈ ((load r.fs dir listing).bySlug.lookup slug).getD []) :
    ((load r.fs dir listing).bySlug.lookup slug).getD [] = [id] ∧
      (∃ m ∈ docs, m.manifestId = id) ∧
      ∃ m, (load r.fs dir listing).getManifest id = some m ∧ m.slug = slug := by
  obtain ⟨m, hm, hslug⟩ := (h.mem_lookup_load hlisting).mp hid
  obtain ⟨hmem, hmid⟩ := h.mem_docs hm
  refine ⟨eq_singleton (h.nodup_lookup_load hlisting slug) hid fun id' hid' => ?_,
    ⟨m, hmem, hmid⟩, m, (h.getManifest_load hlisting id).trans hm, hslug⟩
  obtain ⟨m', hm', hslug'⟩ := (h.mem_lookup_load hlisting).mp hid'
  obtain ⟨hmem', hmid'⟩ := h.mem_docs hm'
  rw [← hmid, ← hmid']
  exact (hone m' hmem' m hmem).mpr (hslug'.trans hslug.symm)

/-- **One id per slug hides a restart.** -/
theorem Kept.sameAfterRestart (h : r.Kept dir docs) (hone : OneIdPerSlug docs) :
    SameAfterRestart dir docs r := by
  intro listing hlisting
  have hget : (load r.fs dir listing).getManifest = r.store.getManifest :=
    funext fun id => h.getManifest_load hlisting id
  have hslugs (slug : Text) : ((load r.fs dir listing).bySlug.lookup slug).getD [] =
      (r.store.bySlug.lookup slug).getD [] := by
    cases hids : (r.store.bySlug.lookup slug).getD [] with
    | nil =>
      refine List.eq_nil_iff_forall_not_mem.mpr fun id hid => ?_
      obtain ⟨m, hm, hslug⟩ := (h.mem_lookup_load hlisting).mp hid
      obtain ⟨hmem, hmid⟩ := h.mem_docs hm
      have hlisted := (h.slugs slug id).mpr ⟨m, hmem, hmid, hslug⟩
      rw [hids] at hlisted
      cases hlisted
    | cons id ids =>
      have hid : id ∈ (r.store.bySlug.lookup slug).getD [] := by
        rw [hids]
        exact List.mem_cons_self
      obtain ⟨hsingle, -, m, hm, hslug⟩ := h.singleton hone hid
      rw [← hids, hsingle]
      exact (h.singleton_load hone hlisting ((h.mem_lookup_load hlisting).mpr ⟨m, hm, hslug⟩)).1
  refine ⟨fun id => congrFun hget id, fun slug => ?_, ?_, ?_⟩
  · rw [modelLatest_eq, modelLatest_eq, hslugs, hget]
  · exact current_of_singletons (fun slug id hid => h.singleton hone hid) h.present
  · refine current_of_singletons (fun slug id hid => h.singleton_load hone hlisting hid)
      fun slug => ?_
    rw [load_eq]
    exact lookup_add_ne_nil dir _ slug

/-- A listing of a directory in which a manifest's file comes last. -/
theorem Kept.listing_last (h : r.Kept dir docs) {m : Document}
    (hm : r.store.manifests.lookup m.manifestId = some m) :
    ∃ listing, listing.Perm (readDir r.fs dir) ∧
      (load r.fs dir listing).modelLatest m.slug = some m := by
  have hmem : manifestFile m.manifestId ∈ readDir r.fs dir :=
    mem_readDir.mpr ⟨_, h.written m.manifestId m hm⟩
  have hperm : ((readDir r.fs dir).erase (manifestFile m.manifestId) ++
      [manifestFile m.manifestId]).Perm (readDir r.fs dir) :=
    (List.perm_append_singleton _ _).trans (List.perm_cons_erase hmem).symm
  refine ⟨_, hperm, ?_⟩
  rw [modelLatest_eq, lookup_load_slug, List.filterMap_append, List.filter_append,
    List.map_append, List.filterMap_cons, h.loadFile_eq_some.mpr ⟨rfl, hm⟩]
  show ((_ ++ (([m].filter _).map _)).getLast?).bind _ = _
  rw [List.filter_cons, if_pos (decide_eq_true rfl), List.filter_nil, List.map_cons,
    List.map_nil, List.getLast?_concat, Option.bind_some, h.getManifest_load hperm]
  exact hm

/-- **And nothing else does.** -/
theorem Kept.oneIdPerSlug (h : r.Kept dir docs) (hsame : SameAfterRestart dir docs r) :
    OneIdPerSlug docs := by
  obtain ⟨-, -, hcurrent, -⟩ := hsame (readDir r.fs dir) (List.Perm.refl _)
  -- an id is listed under the slug of every manifest it was published with
  have hslug {m : Document} (hm : m ∈ docs) :
      ∃ m', r.store.manifests.lookup m.manifestId = some m' ∧ m'.slug = m.slug := by
    have hid := (h.slugs m.slug m.manifestId).mpr ⟨m, hm, rfl, rfl⟩
    cases hids : r.store.bySlug.lookup m.slug with
    | none =>
      rw [hids] at hid
      cases hid
    | some ids =>
      rw [hids] at hid
      exact (hcurrent m.slug ids hids).1 m.manifestId hid
  intro m hm m' hm'
  obtain ⟨kept, hkept, hkeptslug⟩ := hslug hm
  obtain ⟨kept', hkept', hkeptslug'⟩ := hslug hm'
  constructor
  · intro hids
    rw [← hids, hkept] at hkept'
    rw [← hkeptslug, ← hkeptslug', Option.some.inj hkept']
  · intro hslugs
    have hkid := (h.mem_docs hkept).2
    have hkid' := (h.mem_docs hkept').2
    obtain ⟨listing, hlisting, hlast⟩ := h.listing_last (hkid ▸ hkept)
    obtain ⟨listing', hlisting', hlast'⟩ := h.listing_last (hkid' ▸ hkept')
    have hlatest := (hsame listing hlisting).2.1 kept.slug
    have hlatest' := (hsame listing' hlisting').2.1 kept'.slug
    rw [hlast, hkeptslug, hslugs] at hlatest
    rw [hlast', hkeptslug'] at hlatest'
    rw [← hkid, ← hkid', Option.some.inj (hlatest.trans hlatest'.symm)]

/-! ## The file of a manifest -/

/-- **A registry that went from `r` to `r'` to publish a manifest touched the manifest's
own file** and no other, and a later start reads the manifest back from it. -/
structure TouchesOwnFile (dir : List Text) (m : Document) (r r' : ManifestRegistry) : Prop where
  others : ∀ path, path ≠ dir ++ [manifestFile m.manifestId] →
    r'.fs.lookup path = r.fs.lookup path
  own : r'.fs.lookup (dir ++ [manifestFile m.manifestId]) = some (Document.codec.encode m)
  reread : ∀ listing, listing.Perm (readDir r'.fs dir) →
    (load r'.fs dir listing).getManifest m.manifestId = some m
  sole : ∀ name doc m', r'.fs.lookup (dir ++ [name]) = some doc →
    Document.fromJson doc = some m' → m'.manifestId = m.manifestId →
    name = manifestFile m.manifestId
  /-- Every other id that is accepted has another file. -/
  distinct : ∀ id, validateManifestId id = .ok () → id ≠ m.manifestId →
    joinPath dir (manifestFile id) ≠ joinPath dir (manifestFile m.manifestId)
  /-- The update descriptor is as it was. -/
  descriptor : r'.fs.lookup (joinPath dir releaseManifestFile) =
    r.fs.lookup (joinPath dir releaseManifestFile)

/-- The id whose file is the update descriptor's, and which validation permits. -/
def releaseManifestId : Text := "release-manifest".toList

theorem joinPath_releaseManifestFile (dir : List Text) :
    joinPath dir releaseManifestFile = dir ++ [manifestFile releaseManifestId] :=
  @joinPath_manifestFile releaseManifestId (by decide +kernel) dir

/-- What publishing a manifest does to the files. -/
theorem Kept.lookup_put (h : r.Kept dir docs) {m : Document}
    (hid : validateManifestId m.manifestId = .ok ()) (path : List Text) :
    (r.put m).fs.lookup path = if path = dir ++ [manifestFile m.manifestId] then
      some (Document.codec.encode m) else r.fs.lookup path := by
  show (r.fs.insert (joinPath r.store.dir _) _).lookup path = _
  rw [h.stored, joinPath_manifestFile hid]
  split
  · rename_i heq
    rw [heq]
    exact AList.lookup_insert _
  · rename_i hne
    exact AList.lookup_insert_ne hne

/-- **Publishing touches the manifest's file** if the descriptor is not there. -/
theorem Kept.touchesOwnFile_iff (h : r.Kept dir docs) {m : Document}
    (hbody : Document.fromJson body = some m) (hvalid : m.manifest.validate = .ok ()) :
    TouchesOwnFile dir m r (r.put m) ↔ m.manifestId ≠ releaseManifestId ∨
      r.fs.lookup (joinPath dir releaseManifestFile) = some (Document.codec.encode m) := by
  have hid : validateManifestId m.manifestId = .ok () := validateManifestId_of_validate hvalid
  have hput := h.put hbody hvalid
  have hkept : (r.put m).store.manifests.lookup m.manifestId = some m :=
    AList.lookup_insert r.store.manifests
  have hpath {id : Text} (hne : id ≠ m.manifestId) :
      dir ++ [manifestFile id] ≠ dir ++ [manifestFile m.manifestId] :=
    fun heq => hne (manifestFile_injective (List.cons.inj (List.append_cancel_left heq)).1)
  constructor
  · intro htouches
    by_cases hrelease : m.manifestId = releaseManifestId
    · have hsame := htouches.descriptor
      rw [h.lookup_put hid, joinPath_releaseManifestFile, hrelease, if_pos rfl] at hsame
      exact .inr (by rw [joinPath_releaseManifestFile, ← hsame])
    · exact .inl hrelease
  · intro hcondition
    refine ⟨fun path hne => ?_, ?_, fun listing hlisting => ?_, fun name doc m' hdoc hm' hids => ?_,
      fun id hid' hne => ?_, ?_⟩
    · rw [h.lookup_put hid, if_neg hne]
    · rw [h.lookup_put hid, if_pos rfl]
    · rw [hput.getManifest_load hlisting]
      exact hkept
    · rw [← hids]
      exact (hput.only name doc m' hdoc hm').1
    · rw [joinPath_manifestFile hid', joinPath_manifestFile hid]
      exact hpath hne
    · rw [h.lookup_put hid]
      split
      · rename_i heq
        rw [joinPath_releaseManifestFile] at heq
        have hrelease : m.manifestId = releaseManifestId := by
          by_contra hne
          exact hpath (Ne.symm hne) heq
        exact (hcondition.resolve_left fun hne => hne hrelease).symm
      · rfl

end ManifestRegistry

open ManifestRegistry

/-! ## Published manifests -/

/-- What somebody publishes: under which id, with which model's name, and the first signer's
signature over it. -/
structure Publication where
  id : Text
  name : Text
  sig : ℕ
  value : Text
  deriving DecidableEq

namespace Publication

/-- The manifest without its signature, under an id and a name of its own. -/
def body (p : Publication) : DocumentBody :=
  let d := (manifestWith (signerKeys.take 1)).toDocumentBody
  { d with manifestId := p.id, model := { d.model with name := p.name } }

/-- The descriptor of the signer's key, which every publication embeds. -/
def signer : PublicKey := descriptorOf (signerKeys.getD 0 [])

/-- The signed manifest, as its author sends it. -/
def signed (p : Publication) : Document := ⟨p.body, [⟨signer.keyId, .ed25519, p.value⟩]⟩

/-- A request to publish it, the document in the body. -/
def request (p : Publication) : Json.Tree := Document.codec.encode p.signed

/-- The key that signed a publication, with that one signature, made with the first of the
example keys. -/
def secret (p : Publication) : KnownSecret where
  secret := firstSigner.secret
  key := signerKeys.getD 0 []
  message := Document.canonicalBytes ⟨p.body, []⟩
  sig := ofNumber 64 p.sig
  value := p.value

/-- Two manifests of one model, and one that is named like the update descriptor. -/
def all : List Publication := [
  { id := ['a']
    name := "Qwen3".toList
    sig := 0xf098bb117a94eb363e2301103babf0723c042b214e7dae8481acac69bd8c65dc7686f1eee15dff517d63498671b1379ebe085cd84e48ed7eadd4fda3beb6f605
    value := ("8Ji7EXqU6zY+IwEQO6vwcjwEKyFOfa6Egaysab2MZdx2hvHu4V3/UX1jSYZxsTeevghc2E5I7X6t" ++
      "1P2jvrb2BQ==").toList },
  { id := ['b']
    name := "Qwen3".toList
    sig := 0xde3717d2fe5763337013fd4624ebcc6a6fc855c5cf53bf09745cf6ef6ecedfeb42cbd88719d9663ab0b1129e4323a9da9d16a33203f330dd7a58f2b183a8ec00
    value := ("3jcX0v5XYzNwE/1GJOvMam/IVcXPU78JdFz2727O3+tCy9iHGdlmOrCxEp5DI6nanRajMgPzMN16" ++
      "WPKxg6jsAA==").toList },
  { id := releaseManifestId
    name := "Qwen4".toList
    sig := 0x4dc8c8ce602f10feb64293efa8a7635d002a6d251af3267b5373e268d45713ae03742f42f298b92949f2d14acef8639f246000edab73b70f4e5f2420cdbeb10d
    value := ("TcjIzmAvEP62QpPvqKdjXQAqbSUa8yZ7U3PiaNRXE64DdC9C8pi5KUny0UrO+GOfJGAA7atztw9O" ++
      "XyQgzb6xDQ==").toList }]

/-- Who knows the signatures, those of all the publications. -/
abbrev scheme : SigningScheme := .knowing (all.map secret)

/-- **The signatures are valid.** -/
theorem validSignatures_signed {p : Publication} (hp : p ∈ all) :
    (verifyManifest scheme p.signed).validSignatures ≠ [] := by
  have hconsistent : KnownSecret.Consistent (all.map secret) := by decide +kernel
  have haccepts := SigningScheme.knowing_accepts hconsistent (List.mem_map_of_mem hp)
  have hmessage : p.secret.message = p.signed.canonicalBytes :=
    Document.canonicalBytes_inj.mpr rfl
  rw [hmessage] at haccepts
  have hdescriptor : p.signed.descriptor signer.keyId = some signer := by
    show (body ⟨[], [], 0, []⟩).descriptor _ = _
    decide +kernel
  have hpre : keyIdPrefix.isPrefixOf signer.keyId = true := by decide +kernel
  have hsame : eqIgnoreAsciiCase signer.publicKey (signer.keyId.drop keyIdPrefix.length) = true :=
    by decide +kernel
  have hkey : hexDecode (signer.keyId.drop keyIdPrefix.length) = some (signerKeys.getD 0 []) := by
    decide +kernel
  refine List.ne_nil_of_mem (Document.valid_iff.mpr ⟨_, List.mem_singleton_self _, rfl, ?_⟩)
  unfold DocumentBody.verifies
  rw [hdescriptor]
  dsimp only [verifyOne]
  rw [hpre, hsame, hkey]
  exact haccepts

/-- What is requested is read, and passes the checks. -/
theorem request_read : ∀ p ∈ all, Document.fromJson p.request = some p.signed ∧
    p.signed.manifest.validate = .ok () := by
  decide +kernel

end Publication

/-- A directory with an update descriptor in it, and no manifest. -/
def registryFiles : Files :=
  (∅ : Files).insert [['d'], releaseManifestFile] (.obj [("channel".toList, .str "stable".toList)])

theorem registryFiles_fresh : Fresh registryFiles [['d']] := by
  intro name doc hdoc
  by_cases hname : name = releaseManifestFile
  · subst hname
    obtain rfl := Option.some.inj ((AList.lookup_insert _).symm.trans hdoc)
    decide +kernel
  · have hne : [['d']] ++ [name] ≠ [['d'], releaseManifestFile] :=
      fun heq => hname (List.cons.inj (List.cons.inj heq).2).1
    cases (AList.lookup_empty _).symm.trans ((AList.lookup_insert_ne hne).symm.trans hdoc)

theorem start_registryFiles :
    start registryFiles [['d']] = ⟨registryFiles, ⟨[['d']], ∅, ∅⟩⟩ := by
  unfold start
  rw [load_of_fresh registryFiles_fresh]

/-- **The first request to a registry is accepted.** -/
theorem accepts_first {p : Publication} (hp : p ∈ Publication.all) :
    (start registryFiles [['d']]).Accepts Publication.scheme p.request ∧
      (start registryFiles [['d']]).step Publication.scheme p.request =
        (start registryFiles [['d']]).put p.signed := by
  obtain ⟨hread, hvalid⟩ := Publication.request_read p hp
  refine accepts_of hread hvalid (Publication.validSignatures_signed hp) ?_
  rw [start_registryFiles]
  decide +kernel

/-- And so is the second. -/
theorem accepts_two {p q : Publication} (hp : p ∈ Publication.all) (hq : q ∈ Publication.all) :
    Along (step Publication.scheme) (Accepts Publication.scheme) [p.request, q.request]
        (start registryFiles [['d']]) ∧
      [p.request, q.request].foldl (step Publication.scheme) (start registryFiles [['d']]) =
        ((start registryFiles [['d']]).put p.signed).put q.signed := by
  obtain ⟨hfirst, hput⟩ := accepts_first hp
  obtain ⟨hread, hvalid⟩ := Publication.request_read q hq
  have hroom : ((start registryFiles [['d']]).put p.signed).store.manifests.entries.length <
      MAX_STORED_MANIFESTS := by
    rw [start_registryFiles]
    show 1 < MAX_STORED_MANIFESTS
    decide
  obtain ⟨hsecond, hput'⟩ :=
    accepts_of hread hvalid (Publication.validSignatures_signed hq) hroom
  refine ⟨⟨hfirst, ?_, trivial⟩, ?_⟩
  · rw [hput]
    exact hsecond
  · rw [List.foldl_cons, List.foldl_cons, List.foldl_nil, hput, hput']

/-- **Publishing touches only the publisher's own manifest file**, in every state of a
registry, exactly if the manifest's id is not the one whose file is the update
descriptor's (or this manifest is what the descriptor is already). -/
theorem publish_touches_own_file_iff (S : SigningScheme) {fs : Files} {dir : List Text}
    (hfresh : Fresh fs dir) (requests : List Json.Tree) {body : Json.Tree} {m : Document}
    (hbody : Document.fromJson body = some m)
    (haccepted : (requests.foldl (step S) (start fs dir)).Accepts S body) :
    TouchesOwnFile dir m (requests.foldl (step S) (start fs dir))
        ((requests.foldl (step S) (start fs dir)).step S body) ↔
      m.manifestId ≠ releaseManifestId ∨
        (requests.foldl (step S) (start fs dir)).fs.lookup (joinPath dir releaseManifestFile) =
          some (Document.codec.encode m) := by
  obtain ⟨docs, hdocs⟩ := kept_of_requests S hfresh requests
  obtain ⟨-, hnot⟩ | ⟨m', hbody', hvalid, -, heq⟩ :=
    publish_cases S (requests.foldl (step S) (start fs dir)) body
  · exact absurd haccepted hnot
  · obtain rfl := Option.some.inj (hbody.symm.trans hbody')
    rw [heq]
    exact hdocs.touchesOwnFile_iff hbody hvalid

/-- A manifest under an id of its own goes to a file of its own. -/
theorem publish_touches_own_file :
    TouchesOwnFile [['d']] Publication.all[0].signed (start registryFiles [['d']])
      ((start registryFiles [['d']]).step Publication.scheme Publication.all[0].request) := by
  have hfirst : Publication.all[0] ∈ Publication.all := List.getElem_mem _
  exact (publish_touches_own_file_iff Publication.scheme registryFiles_fresh []
    (Publication.request_read _ hfirst).1 (accepts_first hfirst).1).mpr (.inl (by decide +kernel))

/-- **A publisher overwrites the update descriptor.** The manifest is accepted. -/
theorem descriptor_overwritten :
    ∃ p ∈ Publication.all,
      (start registryFiles [['d']]).Accepts Publication.scheme p.request ∧
      (registryFiles.lookup (joinPath [['d']] releaseManifestFile)).bind Document.fromJson = none ∧
      (((start registryFiles [['d']]).step Publication.scheme p.request).fs.lookup
        (joinPath [['d']] releaseManifestFile)).bind Document.fromJson = some p.signed := by
  have hlast : Publication.all[2] ∈ Publication.all := List.getElem_mem _
  obtain ⟨haccepted, hput⟩ := accepts_first hlast
  refine ⟨_, hlast, haccepted, by decide +kernel, ?_⟩
  have hfile : ((start registryFiles [['d']]).put Publication.all[2].signed).fs.lookup
      (joinPath [['d']] releaseManifestFile) = some Publication.all[2].request := by
    rw [start_registryFiles]
    exact AList.lookup_insert _
  rw [hput, hfile]
  exact (Publication.request_read _ hlast).1

/-- **A registry answers the same after a restart**, in whatever order its directory is
listed, and lists the ids of each model as it should before and after, exactly if each
id was published under one slug and each slug with one id. -/
theorem restart_agrees_iff (S : SigningScheme) {fs : Files} {dir : List Text}
    (hfresh : Fresh fs dir) {requests : List Json.Tree}
    (haccepted : Along (step S) (Accepts S) requests (start fs dir)) :
    SameAfterRestart dir (requests.filterMap Document.fromJson)
        (requests.foldl (step S) (start fs dir)) ↔
      OneIdPerSlug (requests.filterMap Document.fromJson) :=
  have hkept := kept_of_accepted hfresh haccepted
  ⟨hkept.oneIdPerSlug, hkept.sameAfterRestart⟩

/-- Manifests of two models under two ids. -/
theorem restart_agrees :
    SameAfterRestart [['d']]
      ([Publication.all[0].request, Publication.all[2].request].filterMap Document.fromJson)
      ([Publication.all[0].request, Publication.all[2].request].foldl (step Publication.scheme)
        (start registryFiles [['d']])) := by
  have hfirst : Publication.all[0] ∈ Publication.all := List.getElem_mem _
  have hlast : Publication.all[2] ∈ Publication.all := List.getElem_mem _
  refine (restart_agrees_iff Publication.scheme registryFiles_fresh
    (accepts_two hfirst hlast).1).mpr ?_
  rw [List.filterMap_cons, (Publication.request_read _ hfirst).1, List.filterMap_cons,
    (Publication.request_read _ hlast).1]
  decide +kernel

/-- **A restart is seen.** Two manifests of one model are published; the registry answers
with the second, and with the first when it has started again from a directory that lists
that last. -/
theorem restart_seen :
    let requests := [Publication.all[0].request, Publication.all[1].request]
    let r := requests.foldl (step Publication.scheme) (start registryFiles [['d']])
    Along (step Publication.scheme) (Accepts Publication.scheme) requests
        (start registryFiles [['d']]) ∧
      r.store.modelLatest "qwen3".toList = some Publication.all[1].signed ∧
      ∃ listing, listing.Perm (readDir r.fs [['d']]) ∧
        (load r.fs [['d']] listing).modelLatest "qwen3".toList =
          some Publication.all[0].signed := by
  have hfirst : Publication.all[0] ∈ Publication.all := List.getElem_mem _
  have hsecond : Publication.all[1] ∈ Publication.all := List.getElem_mem _
  obtain ⟨haccepted, hput⟩ := accepts_two hfirst hsecond
  have hslug : Publication.all[0].signed.slug = "qwen3".toList := by decide +kernel
  refine ⟨haccepted, ?_, ?_⟩
  · rw [hput, start_registryFiles]
    decide +kernel
  · rw [← hslug]
    refine (kept_of_accepted registryFiles_fresh haccepted).listing_last ?_
    rw [hput, start_registryFiles]
    decide +kernel

end Atlas
