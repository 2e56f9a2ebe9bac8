import Atlas.InstallEviction

/-!
# Runs of fetches, installs and evictions

The blobs an eviction takes stand apart from the others as long as the table of
views is in order: every key in it is spelled in lower case, views of one place
are views of one blob, and what is at the place of a view is that blob's
content. Fetching and evicting keep it so whatever is fetched and evicted, if
keys are given in lower case; materializing keeps it so if it does not put a
blob where a view of another one still is (`Tidy`).
-/

namespace Atlas

open Text Program Transition

variable {D : Digests} {locate : Text → Place} {os : Os}

/-- An operation that brings content into the store, or a manifest that describes some. -/
def Op.fetches : Op → Bool
  | .importManifest _ => true
  | .downloadArtifact .. => true
  | .importArtifactFile .. => true
  | .importLocalFile .. => true
  | .evictCache _ => false
  | .reconcile .. => false

/-- An operation on the store and the views, with everything it meets. -/
inductive MachineOp where
  | fetch (op : Op) (hop : op.fetches = true)
  | materializeInstall (os : Os) (manifestId targetDir : Text)
  | evictCache (os : Os) (policy : EvictPolicy)

namespace Machine

/-- The state an operation leaves, however it ends; a refused one may have cleared a
destination. -/
def step (D : Digests) (locate : Text → Place) (h : Machine) : MachineOp → Machine
  | .fetch op _ => { h with disk := op.apply D h.disk }
  | .materializeInstall os manifestId targetDir =>
    (materializeInstall locate os manifestId targetDir h).2
  | .evictCache os policy => (evictCache locate os policy h).2

/-- The state after a sequence of operations, from a fresh installation. -/
def runOps (D : Digests) (locate : Text → Place) (ops : List MachineOp) : Machine :=
  ops.foldl (step D locate) empty

/-! ## Order among the views -/

/-- Views of one place, or of a place and one below it, are views of one blob. -/
def Consistent (locate : Text → Place) (rows : List InstallRow) : Prop :=
  ∀ i ∈ rows, ∀ j ∈ rows, locate j.destPath <+: locate i.destPath → j.blake3 = i.blake3

/-- Keys are spelled the way the store spells them, in lower case, which every row has that
the engine itself has written. -/
def Spelled (rows : List InstallRow) : Prop :=
  ∀ i ∈ rows, i.blake3.toAsciiLowercase = i.blake3

instance (rows : List InstallRow) : Decidable (Consistent locate rows) :=
  inferInstanceAs (Decidable (∀ i ∈ rows, ∀ j ∈ rows, _))

instance (rows : List InstallRow) : Decidable (Spelled rows) :=
  inferInstanceAs (Decidable (∀ i ∈ rows, _))

/-- A cache row goes by the name of its blob, which is the BLAKE3 digest of its bytes in
lower-case hexadecimal digits. -/
def Named (D : Digests) (row : CacheBlob) (b : Bytes) : Prop :=
  row.blake3 = hexEncode (D.blake3 b)

theorem named_indexable : Indexable D (Named D) where
  update _ hold := hold
  new hm := hm.blake3
  git _ hrow := hrow

/-- **The table of views is in order**: every row's file is there with the bytes of its
blob, and no two rows get in each other's way. -/
structure Orderly (D : Digests) (locate : Text → Place) (h : Machine) : Prop where
  cache : CacheSound D (Named D) h.disk.cache
  spelled : Spelled h.disk.installs
  consistent : Consistent locate h.disk.installs
  content : ∀ i ∈ h.disk.installs, ∀ b,
    FileTree.contentAt (locate i.destPath) h.files = some b →
      i.blake3 = hexEncode (D.blake3 b)

theorem Consistent.subset {rows rows' : List InstallRow} (h : Consistent locate rows)
    (hsub : ∀ i ∈ rows', i ∈ rows) : Consistent locate rows' :=
  fun i hi j hj => h i (hsub i hi) j (hsub j hj)

/-- The views a call of `materializeInstall` is to make: one for each artifact whose content
is in the cache, at its path below the target directory. -/
def plannedViews (c : Cache) (targetDir : Text) (artifacts : List Artifact) :
    List InstallRow :=
  artifacts.filterMap fun a => (contentKey c a).map fun k => ⟨joinDest targetDir a.path, k⟩

/-- **The condition on an operation**, in the state it is applied in. A download
that names a cached blob spells it the way the store does. Views to be made are
of blobs so spelled, none of them is of a place where a view of another blob is
or is to be, and a copy that fails leaves nothing. An eviction of one blob spells
it the way the store does. -/
def Tidy (locate : Text → Place) (h : Machine) : MachineOp → Prop
  | .fetch (.downloadArtifact _ _ a _) _ =>
    a.hashes.hasBlake3 → Cas.hasBlob h.disk.cache a.hashes.blake3 →
      a.hashes.blake3.toAsciiLowercase = a.hashes.blake3
  | .fetch .. => True
  | .materializeInstall os manifestId targetDir =>
    ∀ m, requireManifest manifestId h.disk = .ok m →
      Spelled (plannedViews h.disk.cache targetDir m.artifacts) ∧
      Consistent locate
        (plannedViews h.disk.cache targetDir m.artifacts ++ h.disk.installs) ∧
      ∀ dest failure, os.link dest = .error failure → failure.2 = none
  | .evictCache _ (.blob b) => b.toAsciiLowercase = b
  | .evictCache .. => True

/-- In an orderly state the blobs of any eviction by lower-case keys stand apart. -/
theorem Orderly.apart {h : Machine} (ho : Orderly D locate h) {ks : List Text}
    (hks : ∀ k ∈ ks, k.toAsciiLowercase = k) : Apart locate ks h := by
  have hmem : ∀ key, key ∈ evictedFiles ks → key ∈ ks := by
    intro key hkey
    obtain ⟨k, hk, rfl⟩ := List.mem_map.mp hkey
    rw [hks k hk]
    exact hk
  refine ⟨fun j hj hk i hi hprefix key hholds => ?_, fun row hrow hkey => ?_,
    fun i hi hkey => ?_⟩
  · obtain ⟨b, hcontent, hblob⟩ := hholds
    refine List.mem_map.mpr ⟨j.blake3, hk, ?_⟩
    rw [hks _ hk, ho.consistent i hi j hj hprefix, ho.content i hi b hcontent]
    exact (ho.cache.cas.blob key b hblob).1.symm
  · obtain ⟨key, b, -, -, hnamed⟩ := ho.cache.rows row hrow
    have hlower : row.blake3.toAsciiLowercase = row.blake3 := by
      rw [show row.blake3 = hexEncode (D.blake3 b) from hnamed]
      exact toAsciiLowercase_hexEncode _
    exact hlower ▸ hmem _ hkey
  · exact ⟨i, hi, ho.spelled i hi ▸ hmem _ hkey, rfl⟩

/-! ## Fetching -/

theorem installs_undisturbed (rows : List InstallRow) :
    Undisturbed (fun d => d.installs = rows) where
  temps _ _ hd := hd
  downloads _ _ hd := hd
  trace _ _ hd := hd
  failure _ _ _ := by
    refine Keeps.bind (Keeps.modify fun _ hd => hd) fun _ => Keeps.whenever fun _ => ?_
    refine Keeps.bind (Keeps.modify fun _ hd => hd) fun _ => ?_
    exact Keeps.bind (fun _ hd => hd) fun _ => Keeps.modify fun _ hd => hd
  cache _ _ hd := hd
  success _ _ _ hd := hd

/-- Fetching leaves the table of views alone. -/
theorem fetch_installs {op : Op} (hop : op.fetches = true) (d : Disk) :
    (op.apply D d).installs = d.installs := by
  have hmanifest : ∀ m, Keeps (fun d' => d'.installs = d.installs) (importManifest m) := by
    intro m d' hd'
    unfold importManifest
    cases m.validate with
    | error e => exact hd'
    | ok u => exact hd'
  have hsame := installs_undisturbed d.installs
  cases op with
  | importManifest m => exact hmanifest m d rfl
  | downloadArtifact maxAttempts manifestId artifact run =>
    exact hsame.downloadArtifact maxAttempts manifestId artifact run d rfl
  | importArtifactFile manifestId artifactPath file =>
    exact hsame.importArtifactFile manifestId artifactPath file d rfl
  | importLocalFile file manifest => exact hsame.importLocalFile hmanifest file manifest d rfl
  | evictCache policy => cases hop
  | reconcile live hasTemp => cases hop

/-- A blob that the cache lookup finds is found under the declared BLAKE3 or
under the key of a row. -/
theorem cachedBlake3_cases {c : Cache} {a : Artifact} {k : Text}
    (h : cachedBlake3 c a = some k) :
    (k = a.hashes.blake3 ∧ a.hashes.hasBlake3 = true ∧ Cas.hasBlob c k = true) ∨
      ∃ row ∈ c.rows, row.blake3 = k := by
  unfold cachedBlake3 at h
  by_cases hb : (a.hashes.hasBlake3 && Cas.hasBlob c a.hashes.blake3) = true
  · rw [if_pos hb] at h
    cases h
    exact Or.inl ⟨rfl, Bool.and_eq_true_iff.mp hb⟩
  · rw [if_neg hb] at h
    refine Or.inr ?_
    by_cases hs : a.hashes.hasSha256 = true
    · rw [if_pos hs] at h
      obtain ⟨row, hfind, rfl⟩ := Option.map_eq_some_iff.mp h
      exact ⟨row, List.mem_of_find?_eq_some hfind, rfl⟩
    · rw [if_neg hs] at h
      by_cases hg : a.hashes.hasGitBlobSha1 = true
      · rw [if_pos hg] at h
        obtain ⟨row, hfind, rfl⟩ := Option.map_eq_some_iff.mp h
        exact ⟨row, List.mem_of_find?_eq_some hfind, rfl⟩
      · rw [if_neg hg] at h
        cases h

/-- A cache hit keeps the rows named after their blobs, if a declared BLAKE3 is
spelled as the store spells it. -/
theorem hit_named {c : Cache} (hc : CacheSound D (Named D) c) {a : Artifact} {k : Text}
    (hspelled : a.hashes.hasBlake3 → Cas.hasBlob c a.hashes.blake3 →
      a.hashes.blake3.toAsciiLowercase = a.hashes.blake3)
    (h : cachedBlake3 c a = some k) (sha256 : Text) (size : ℕ) :
    RowsSound (Named D) (upsertRow ⟨k, sha256, size⟩ c) := by
  obtain ⟨rfl, hdeclared, hhas⟩ | ⟨row, hrow, rfl⟩ := cachedBlake3_cases h
  · have hlower := hspelled hdeclared hhas
    unfold Cas.hasBlob at hhas
    cases hpath : Cas.blobPath a.hashes.blake3 with
    | error e =>
      rw [hpath] at hhas
      cases hhas
    | ok key =>
      rw [hpath] at hhas
      obtain ⟨b, hblob⟩ := Option.isSome_iff_exists.mp hhas
      refine hc.rows.upsert hpath hblob (fun _ _ _ hold => hold) fun _ => ?_
      show a.hashes.blake3 = hexEncode (D.blake3 b)
      rw [← hlower, ← blobPath_eq_ok hpath]
      exact (hc.cas.blob key b hblob).1
  · obtain ⟨key, b, hpath, hblob, -⟩ := hc.rows row hrow
    exact hc.rows.upsert hpath hblob (fun _ _ _ hold => hold)
      fun hnone => absurd rfl (hnone row hrow)

theorem Orderly.fetch (hinj : Function.Injective D.blake3) {h : Machine}
    (ho : Orderly D locate h) {op : Op} (hop : op.fetches = true)
    (ht : Tidy locate h (.fetch op hop)) :
    Orderly D locate (step D locate h (.fetch op hop)) := by
  have hinstalls := fetch_installs (D := D) hop h.disk
  have hcache : CacheSound D (Named D) (op.apply D h.disk).cache := by
    refine ho.cache.step named_indexable (Op.apply_cacheStep hinj ho.cache.cas ho.cache.rows op)
      (fun n id a run k heq hfound => ?_) (fun policy heq => ?_)
    · subst heq
      exact hit_named ho.cache ht hfound _ _
    · subst heq
      cases hop
  refine ⟨hcache, ?_, ?_, ?_⟩
  · show Spelled (op.apply D h.disk).installs
    rw [hinstalls]
    exact ho.spelled
  · show Consistent locate (op.apply D h.disk).installs
    rw [hinstalls]
    exact ho.consistent
  · show ∀ i ∈ (op.apply D h.disk).installs, _
    rw [hinstalls]
    exact ho.content

/-! ## Materializing -/

/-- Files change at one place only, and everything elsewhere reads as before. -/
def ChangedAt (p : Place) (h : Machine) (files : FileTree Text Bytes) : Prop :=
  ∀ q, q ≠ p → FileTree.contentAt q files = FileTree.contentAt q h.files

/-- What is at a place is what was there, or nothing; this is the frame of a step that may
remove what is at the place but writes nothing there. -/
def KeptOrGone (p : Place) (h : Machine) (files : FileTree Text Bytes) : Prop :=
  FileTree.contentAt p files = FileTree.contentAt p h.files ∨
    FileTree.contentAt p files = none

theorem clearDest_spec (dest : Text) (h : Machine) :
    ∃ files, (clearDest locate os dest h).2 = { h with files := files } ∧
      ChangedAt (locate dest) h files ∧ KeptOrGone (locate dest) h files := by
  unfold clearDest
  rw [bind_apply, get_apply, andThen_ok]
  by_cases hdir : FileTree.isDir (locate dest) h.files = true
  · rw [if_pos hdir]
    exact ⟨h.files, rfl, fun _ _ => rfl, Or.inl rfl⟩
  · rw [if_neg hdir]
    cases os.removeFile dest with
    | some reason => exact ⟨h.files, rfl, fun _ _ => rfl, Or.inl rfl⟩
    | none =>
      exact ⟨_, rfl, fun q hq => FileTree.contentAt_unlink_of_ne hq _,
        Or.inr (FileTree.contentAt_unlink_self _ _)⟩

/-- A blob is linked or copied, or nothing happens, where failed copies leave nothing. -/
theorem linkBlob_spec (locate : Text → Place)
    (hleft : ∀ dest failure, os.link dest = .error failure → failure.2 = none)
    (bytes : Bytes) (dest : Text) (h : Machine) :
    (∃ kind, linkBlob locate os bytes dest h =
      (.ok kind, { h with files := FileTree.write (locate dest) bytes h.files })) ∨
    ∃ e, linkBlob locate os bytes dest h = (.err e, h) := by
  unfold linkBlob
  cases hlink : os.link dest with
  | ok kind => exact Or.inl ⟨kind, rfl⟩
  | error failure =>
    obtain ⟨reason, left⟩ := failure
    obtain rfl : left = none := hleft dest _ hlink
    exact Or.inr ⟨_, rfl⟩

/-- **What materializing a blob comes to**: its bytes are at the destination, or
it failed and what was there stayed or went. -/
theorem materialize_spec (locate : Text → Place)
    (hleft : ∀ dest failure, os.link dest = .error failure → failure.2 = none)
    (blake3 dest : Text) (h : Machine) :
    ∃ files, (materialize locate os blake3 dest h).2 = { h with files := files } ∧
      ChangedAt (locate dest) h files ∧
      ((∃ kind key b, (materialize locate os blake3 dest h).1 = .ok kind ∧
          Cas.blobPath blake3 = .ok key ∧ h.disk.cache.blobs key = some b ∧
          FileTree.contentAt (locate dest) files = some b) ∨
        (∀ kind, (materialize locate os blake3 dest h).1 ≠ .ok kind) ∧
          KeptOrGone (locate dest) h files) := by
  -- the exits before the link leave the files as they are; the destination may only have been
  -- cleared, never half written
  have hnothing : ChangedAt (locate dest) h h.files := fun _ _ => rfl
  have hkept : KeptOrGone (locate dest) h h.files := Or.inl rfl
  have hfails (e : Error) (kind : LinkKind) : (Exit.err e : Exit Error LinkKind) ≠ .ok kind :=
    fun h => by cases h
  unfold materialize
  rw [bind_apply]
  cases hpath : Cas.blobPath blake3 with
  | error e => exact ⟨h.files, rfl, hnothing, Or.inr ⟨hfails _, hkept⟩⟩
  | ok key =>
    rw [ofExcept_ok, andThen_ok, bind_apply, get_apply, andThen_ok]
    cases hblob : h.disk.cache.blobs key with
    | none => exact ⟨h.files, rfl, hnothing, Or.inr ⟨hfails _, hkept⟩⟩
    | some bytes =>
      by_cases hblocked : blocked (locate dest) h = true
      · simp only [if_pos hblocked]
        exact ⟨h.files, rfl, hnothing, Or.inr ⟨hfails _, hkept⟩⟩
      · simp only [if_neg hblocked]
        cases os.createDirAll dest with
        | some reason => exact ⟨h.files, rfl, hnothing, Or.inr ⟨hfails _, hkept⟩⟩
        | none =>
          -- a file in the way is removed first, and that removal is all that a failure further on
          -- leaves behind
          have hclear : ∃ files, (whenever (occupied (locate dest) h)
              (clearDest locate os dest) h).2 = { h with files := files } ∧
              ChangedAt (locate dest) h files ∧ KeptOrGone (locate dest) h files := by
            by_cases hocc : occupied (locate dest) h = true
            · rw [whenever_true hocc]
              exact clearDest_spec dest h
            · rw [whenever_false hocc]
              exact ⟨h.files, rfl, hnothing, hkept⟩
          obtain ⟨files, hstate, hchanged, hgone⟩ := hclear
          dsimp only
          rw [bind_apply]
          generalize whenever (occupied (locate dest) h)
            (clearDest locate os dest) h = r at hstate ⊢
          rcases r with ⟨u | e | _, h₁⟩
          · obtain rfl : h₁ = { h with files := files } := hstate
            rw [andThen_ok]
            obtain ⟨kind, hlink⟩ | ⟨e, hlink⟩ := linkBlob_spec locate hleft bytes
              dest { h with files := files }
            · rw [hlink]
              refine ⟨_, rfl, fun q hq => ?_, Or.inl ⟨kind, key, bytes, rfl, rfl, hblob, ?_⟩⟩
              · exact (FileTree.contentAt_write_of_ne hq _ _).trans (hchanged q hq)
              · exact FileTree.contentAt_write_self _ _ _
            · rw [hlink]
              exact ⟨files, rfl, hchanged, Or.inr ⟨hfails _, hgone⟩⟩
          · obtain rfl : h₁ = { h with files := files } := hstate
            exact ⟨files, rfl, hchanged, Or.inr ⟨hfails _, hgone⟩⟩
          · obtain rfl : h₁ = { h with files := files } := hstate
            exact ⟨files, rfl, hchanged, Or.inr ⟨fun _ => by rintro ⟨⟩, hgone⟩⟩

/-- What making the view of one artifact keeps, and what it adds. -/
structure Installed (D : Digests) (locate : Text → Place) (view : Option InstallRow)
    (h h' : Machine) : Prop where
  orderly : Orderly D locate h'
  cache : h'.disk.cache = h.disk.cache
  rows : ∀ i ∈ h'.disk.installs, i ∈ h.disk.installs ∨ i ∈ view

theorem Installed.same {view : Option InstallRow} {h : Machine} (ho : Orderly D locate h) :
    Installed D locate view h h :=
  ⟨ho, rfl, fun _ hi => Or.inl hi⟩

/-- Files that change at one place, where no more is than there was, leave the
views in order. -/
theorem Orderly.of_gone {h : Machine} (ho : Orderly D locate h) {p : Place}
    {files : FileTree Text Bytes} (hchanged : ChangedAt p h files)
    (hgone : KeptOrGone p h files) : Orderly D locate { h with files := files } := by
  refine ⟨ho.cache, ho.spelled, ho.consistent, fun i hi b hb => ?_⟩
  by_cases hp : locate i.destPath = p
  · obtain hsame | hnone := hgone
    · exact ho.content i hi b (by rw [hp, ← hsame, ← hp]; exact hb)
    · rw [hp, hnone] at hb
      cases hb
  · exact ho.content i hi b ((hchanged _ hp).symm.trans hb)

/-- A view of a blob that is there, made where only views of that blob are,
leaves the views in order. -/
theorem Orderly.recordInstall {h : Machine} (ho : Orderly D locate h) {k dest key : Text}
    {bytes : Bytes} {files : FileTree Text Bytes} (hspelled : k.toAsciiLowercase = k)
    (hcons : Consistent locate (⟨dest, k⟩ :: h.disk.installs))
    (hpath : Cas.blobPath k = .ok key) (hblob : h.disk.cache.blobs key = some bytes)
    (hchanged : ChangedAt (locate dest) h files)
    (hcontent : FileTree.contentAt (locate dest) files = some bytes) :
    Orderly D locate (recordInstall dest k { h with files := files }) := by
  have hmem : ∀ i ∈ h.disk.installs ++ [⟨dest, k⟩],
      i ∈ (⟨dest, k⟩ : InstallRow) :: h.disk.installs := fun i hi =>
    (List.mem_append.mp hi).elim (List.mem_cons_of_mem _)
      fun hi => List.mem_singleton.mp hi ▸ List.mem_cons_self
  refine ⟨ho.cache, fun i hi => ?_, hcons.subset hmem, fun i hi b hb => ?_⟩
  · obtain rfl | hold := List.mem_cons.mp (hmem i hi)
    · exact hspelled
    · exact ho.spelled i hold
  · by_cases hp : locate i.destPath = locate dest
    · -- the views of the place are views of the blob
      have hk : k = i.blake3 := hcons i (hmem i hi) ⟨dest, k⟩ List.mem_cons_self
        (hp ▸ List.prefix_rfl)
      have hb' : some bytes = some b := hcontent.symm.trans (hp ▸ hb)
      cases hb'
      rw [← hk, ← hspelled, ← blobPath_eq_ok hpath]
      exact (ho.cache.cas.blob key bytes hblob).1
    · obtain rfl | hold := List.mem_cons.mp (hmem i hi)
      · exact absurd rfl hp
      · exact ho.content i hold b ((hchanged _ hp).symm.trans hb)

theorem installArtifact_installed
    (hleft : ∀ dest failure, os.link dest = .error failure → failure.2 = none)
    (targetDir : Text) (a : Artifact) {h : Machine} (ho : Orderly D locate h)
    (hview : ∀ k, contentKey h.disk.cache a = some k → k.toAsciiLowercase = k ∧
      Consistent locate (⟨joinDest targetDir a.path, k⟩ :: h.disk.installs)) :
    Installed D locate
      ((contentKey h.disk.cache a).map fun k => ⟨joinDest targetDir a.path, k⟩) h
      (installArtifact locate os targetDir a h).2 := by
  unfold installArtifact
  rw [bind_apply]
  cases validateArtifactPath a.path with
  | error e => exact .same ho
  | ok u =>
    rw [ofExcept_ok, andThen_ok, bind_apply, get_apply, andThen_ok]
    cases hkey : contentKey h.disk.cache a with
    | none => exact .same ho
    | some k =>
      obtain ⟨hspelled, hcons⟩ := hview k hkey
      obtain ⟨files, hstate, hchanged, houtcome⟩ := materialize_spec locate hleft k
        (joinDest targetDir a.path) h
      dsimp only
      rw [bind_apply]
      generalize materialize locate os k (joinDest targetDir a.path) h = r at hstate houtcome ⊢
      rcases r with ⟨kind | e | _, h₁⟩
      · obtain rfl : h₁ = { h with files := files } := hstate
        obtain ⟨-, key, b, -, hpath, hblob, hcontent⟩ | ⟨hnot, -⟩ := houtcome
        · refine ⟨ho.recordInstall hspelled hcons hpath hblob hchanged hcontent, rfl,
            fun i hi => ?_⟩
          exact (List.mem_append.mp hi).imp id fun hi => congrArg some (List.mem_singleton.mp hi).symm
        · exact absurd rfl (hnot kind)
      all_goals
        obtain rfl : h₁ = { h with files := files } := hstate
        obtain ⟨kind, -, -, hok, -⟩ | ⟨-, hgone⟩ := houtcome
        · cases hok
        · exact ⟨ho.of_gone hchanged hgone, rfl, fun _ hi => Or.inl hi⟩

theorem installArtifacts_orderly
    (hleft : ∀ dest failure, os.link dest = .error failure → failure.2 = none)
    {targetDir : Text} (artifacts : List Artifact) {h : Machine} (ho : Orderly D locate h)
    (hspelled : Spelled (plannedViews h.disk.cache targetDir artifacts))
    (hcons : Consistent locate
      (plannedViews h.disk.cache targetDir artifacts ++ h.disk.installs)) :
    Orderly D locate (installArtifacts locate os targetDir artifacts h).2 := by
  -- on the artifacts still to install; the rows written so far are among the views planned, so
  -- consistency passes to the rest
  induction artifacts generalizing h with
  | nil => exact ho
  | cons a rest ih =>
    have hsub : ∀ i ∈ plannedViews h.disk.cache targetDir rest,
        i ∈ plannedViews h.disk.cache targetDir (a :: rest) := by
      intro i hi
      obtain ⟨a', ha', hi⟩ := List.mem_filterMap.mp hi
      exact List.mem_filterMap.mpr ⟨a', List.mem_cons_of_mem a ha', hi⟩
    have hplanned : ∀ k, contentKey h.disk.cache a = some k →
        ⟨joinDest targetDir a.path, k⟩ ∈ plannedViews h.disk.cache targetDir (a :: rest) :=
      fun k hk => List.mem_filterMap.mpr ⟨a, List.mem_cons_self, by rw [hk]; rfl⟩
    have hone := installArtifact_installed hleft targetDir a ho
      fun k hk => ⟨hspelled _ (hplanned k hk), hcons.subset fun i hi => ?_⟩
    · unfold installArtifacts
      rw [bind_apply]
      generalize installArtifact locate os targetDir a h = r at hone ⊢
      rcases r with ⟨view | e | _, h₁⟩
      · have hcache : h₁.disk.cache = h.disk.cache := hone.cache
        have hrest := ih (h := h₁) hone.orderly (by
          rw [hcache]
          exact fun i hi => hspelled i (hsub i hi)) (hcons.subset fun i hi => by
            rw [hcache] at hi
            obtain hi | hi := List.mem_append.mp hi
            · exact List.mem_append_left _ (hsub i hi)
            · obtain hold | hnew := hone.rows i hi
              · exact List.mem_append_right _ hold
              · obtain ⟨k, hk, rfl⟩ := Option.map_eq_some_iff.mp hnew
                exact List.mem_append_left _ (hplanned k hk))
        rw [andThen_ok, bind_apply]
        generalize installArtifacts locate os targetDir rest h₁ = r' at hrest ⊢
        rcases r' with ⟨views | e | _, h'⟩ <;> exact hrest
      · exact hone.orderly
      · exact hone.orderly
    · obtain rfl | hi := List.mem_cons.mp hi
      · exact List.mem_append_left _ (hplanned k hk)
      · exact List.mem_append_right _ hi

/-! ## Evicting -/

theorem Orderly.of_shrunk {h h' : Machine} {dests : List Text} (ho : Orderly D locate h)
    (hs : Shrunk locate dests h h') (hcache : CacheSound D (Named D) h'.disk.cache) :
    Orderly D locate h' := by
  refine ⟨hcache, fun i hi => ho.spelled i (hs.fewer i hi), ho.consistent.subset hs.fewer,
    fun i hi b hb => ?_⟩
  obtain hsame | hnone := hs.lost (locate i.destPath)
  · exact ho.content i (hs.fewer i hi) b (hsame.symm.trans hb)
  · rw [hnone] at hb
    cases hb

/-- Evicting a blob by its lower-case key. -/
theorem evictOne_orderly {k : Text} (hk : k.toAsciiLowercase = k) (installs : List InstallRow) :
    Keeps (Orderly D locate) (evictOne locate os installs k) := by
  intro h ho
  obtain ⟨hshrunk, hcache⟩ := evictOne_shrunk locate os installs k h
  refine ho.of_shrunk hshrunk ?_
  obtain hsame | hevicted := hcache
  · rw [hsame]
    exact ho.cache
  · refine ⟨hevicted.casSound ho.cache.cas, hevicted.rowsSound ho.cache.rows ?_⟩
    intro k' hk' row hrow hlower
    obtain ⟨key, b, -, -, hnamed⟩ := ho.cache.rows row hrow
    rw [List.mem_singleton.mp hk', hk] at hlower
    rw [List.mem_singleton, ← hlower, show row.blake3 = hexEncode (D.blake3 b) from hnamed]
    exact (toAsciiLowercase_hexEncode _).symm

/-- In an orderly state a policy that names a blob in lower case names every blob
in lower case. -/
theorem Orderly.evicted_spelled {h : Machine} (ho : Orderly D locate h) (os : Os)
    {policy : EvictPolicy} (ht : Tidy locate h (.evictCache os policy)) :
    ∀ k ∈ evicted policy h.disk, k.toAsciiLowercase = k := by
  have hrows : ∀ k ∈ h.disk.cache.rows.map CacheBlob.blake3, k.toAsciiLowercase = k := by
    intro k hk
    obtain ⟨row, hrow, rfl⟩ := List.mem_map.mp hk
    obtain ⟨key, b, -, -, hnamed⟩ := ho.cache.rows row hrow
    rw [show row.blake3 = hexEncode (D.blake3 b) from hnamed]
    exact toAsciiLowercase_hexEncode _
  cases policy with
  | all => exact hrows
  | unreferenced => exact fun k hk => hrows k (List.mem_of_mem_filter hk)
  | blob b => exact fun k hk => List.mem_singleton.mp hk ▸ ht

/-! ## Runs -/

/-- **An operation that meets the condition keeps the views in order.** -/
theorem Tidy.preserves (hinj : Function.Injective D.blake3) {h : Machine}
    (ho : Orderly D locate h) {op : MachineOp} (ht : Tidy locate h op) :
    Orderly D locate (step D locate h op) := by
  cases op with
  | fetch op hop => exact ho.fetch hinj hop ht
  | materializeInstall os manifestId targetDir =>
    show Orderly D locate (materializeInstall locate os manifestId targetDir h).2
    unfold materializeInstall
    rw [bind_apply, get_apply, andThen_ok, bind_apply]
    cases hm : requireManifest manifestId h.disk with
    | error e => exact ho
    | ok m =>
      obtain ⟨hspelled, hcons, hleft⟩ := ht m hm
      exact installArtifacts_orderly hleft m.artifacts ho hspelled hcons
  | evictCache os policy =>
    show Orderly D locate (evictCache locate os policy h).2
    rw [evictCache_eq]
    exact Keeps.forM _ (fun k hk => evictOne_orderly (ho.evicted_spelled os ht k hk) _)
      h ho

theorem Orderly.empty (D : Digests) (locate : Text → Place) : Orderly D locate empty where
  cache := CacheSound.empty D _
  spelled _ hi := absurd hi List.not_mem_nil
  consistent _ hi := absurd hi List.not_mem_nil
  content _ hi := absurd hi List.not_mem_nil

/-- **Evicting blobs spares the views of others and leaves nothing of the evicted
ones**, after any run of fetches, installs and evictions: whenever the evicted
blobs stand apart it spares the others, however it ends; when it returns it does
both exactly if they stand apart; and they do if every operation of the run meets
the condition, the eviction included. -/
theorem evictCache_spares_others (hinj : Function.Injective D.blake3)
    (locate : Text → Place) (ops : List MachineOp) (os : Os) (policy : EvictPolicy) :
    let h := runOps D locate ops
    let ks := evicted policy h.disk
    let h' := (evictCache locate os policy h).2
    (Apart locate ks h → SparesOthers locate ks h h') ∧
    (∀ removed, (evictCache locate os policy h).1 = .ok removed →
      (SparesOthers locate ks h h' ∧ LeavesNothing ks h' ↔ Apart locate ks h)) ∧
    (Along (step D locate) (Tidy locate) (ops ++ [.evictCache os policy]) empty →
      Apart locate ks h) := by
  refine ⟨fun ha => ha.spares os, fun removed hok => evictCache_exact (eq_of_fst_eq hok), fun hops => ?_⟩
  obtain ⟨hrun, hevict⟩ := Along.append_singleton.mp hops
  have ho : Orderly D locate (runOps D locate ops) :=
    hrun.invariant (I := Orderly D locate) (fun _ _ h ht => Tidy.preserves hinj h ht)
      (Orderly.empty D locate)
  exact ho.apart (ho.evicted_spelled os hevict)

/-! ## A view over another -/

/-- Paths lead where their components say, separated by slashes as under Unix. -/
def slashes (path : Text) : Place := path.splitOnP fun c => c = '/'

/-- A manifest of one file, `model.bin`, declared by its true digests. -/
def modelManifest (manifestId : Text) (file : Bytes) : Manifest :=
  { abcManifest with
    manifestId := manifestId
    artifacts := [{
      path := "model.bin".toList
      sizeBytes := file.length
      hashes := (hashBytes sampleDigests file)
      chunking := none
      sources := [.localFile "model.bin".toList] }] }

theorem first_fetches :
    (Op.importLocalFile abc (modelManifest "first".toList abc)).fetches = true := rfl

theorem second_fetches :
    (Op.importLocalFile [] (modelManifest "second".toList [])).fetches = true := rfl

/-- A first version of a model, imported and installed, in the order in which a user would
do it. -/
def firstVersion : List MachineOp :=
  [.fetch (.importLocalFile abc (modelManifest "first".toList abc)) first_fetches,
    .materializeInstall (.willing .reflink) "first".toList "models".toList]

/-- A second version, imported and installed into a directory, where a view of the first
version may be already. -/
def secondVersion (targetDir : Text) : List MachineOp :=
  [.fetch (.importLocalFile [] (modelManifest "second".toList [])) second_fetches,
    .materializeInstall (.willing .reflink) "second".toList targetDir]

/-- The key of the first version, whose content is `abc`. -/
def firstKey : Text := (hashBytes sampleDigests abc).blake3

/-- The key of the second version, whose content is empty. -/
def secondKey : Text := (hashBytes sampleDigests []).blake3

/-- The view of the second version where it is installed over the first. -/
def secondView : InstallRow := ⟨"models/model.bin".toList, secondKey⟩

/-- Both versions, the second installed over the first in the same directory. -/
def overwritten : Machine :=
  runOps sampleDigests slashes (firstVersion ++ secondVersion "models".toList)

/-- **Evicting the first version takes the second one's file and row**: the row
of the first still names the destination. -/
theorem evict_takes_later_view :
    (evictCache slashes (.willing .reflink) (.blob firstKey) overwritten).1 = .ok [firstKey] ∧
      Holds slashes overwritten secondView secondKey ∧
      FileTree.contentAt (slashes secondView.destPath)
        (evictCache slashes (.willing .reflink) (.blob firstKey) overwritten).2.files = none ∧
      ¬ SparesOthers slashes [firstKey] overwritten
        (evictCache slashes (.willing .reflink) (.blob firstKey) overwritten).2 := by
  have hview : secondView ∈ overwritten.disk.installs := by decide +kernel
  have hholds : Holds slashes overwritten secondView secondKey :=
    ⟨[], by decide +kernel, by decide +kernel⟩
  have hkey : secondKey ∉ evictedFiles [firstKey] := by decide +kernel
  have hrow : secondView ∉ (evictCache slashes (.willing .reflink) (.blob firstKey)
      overwritten).2.disk.installs := by decide +kernel
  refine ⟨by decide +kernel, hholds, by decide +kernel, fun hspares => ?_⟩
  exact hrow (hspares secondView hview secondKey hholds hkey).2

/-- With the second version installed elsewhere, evicting the first spares it and
leaves nothing of the first. -/
theorem first_version_apart :
    ∃ h', evictCache slashes (.willing .reflink) (.blob firstKey)
        (runOps sampleDigests slashes (firstVersion ++ secondVersion "other".toList)) =
          (.ok [firstKey], h') ∧
      SparesOthers slashes [firstKey]
        (runOps sampleDigests slashes (firstVersion ++ secondVersion "other".toList)) h' ∧
      LeavesNothing [firstKey] h' := by
  obtain ⟨-, hexact, htidy⟩ := evictCache_spares_others sampleDigests_injective slashes
    (firstVersion ++ secondVersion "other".toList) (.willing .reflink) (.blob firstKey)
  have hok : (evictCache slashes (.willing .reflink) (.blob firstKey)
      (runOps sampleDigests slashes (firstVersion ++ secondVersion "other".toList))).1 =
        .ok [firstKey] := by decide +kernel
  refine ⟨_, eq_of_fst_eq hok, (hexact _ hok).mpr (htidy ⟨trivial, ?_, trivial, ?_, ?_, trivial⟩)⟩
  · intro m hm
    rw [show requireManifest "first".toList _ = .ok (modelManifest "first".toList abc) by
      decide +kernel] at hm
    cases hm
    exact ⟨by decide +kernel, by decide +kernel, by rintro _ _ ⟨⟩⟩
  · intro m hm
    rw [show requireManifest "second".toList _ = .ok (modelManifest "second".toList []) by
      decide +kernel] at hm
    cases hm
    exact ⟨by decide +kernel, by decide +kernel, by rintro _ _ ⟨⟩⟩
  · show firstKey.toAsciiLowercase = firstKey
    decide +kernel

end Machine

end Atlas
