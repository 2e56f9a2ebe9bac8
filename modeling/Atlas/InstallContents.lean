import Atlas.InstallRuns

/-!
# What an install leaves

When `materializeInstall` returns, the file at the place of an artifact has the content
of the last artifact whose path leads there (`installArtifacts_contents`): an artifact
with a path of its own has the blob its digests resolve to. The paths of a manifest are
checked one at a time, and an artifact is resolved by one of its digests, so
`installs_completely_iff` says when the files have the digests that are declared.
-/

namespace Atlas

open Text Program

namespace Machine

variable (locate : Text → Place) (os : Os)

/-- The bytes an artifact is installed with: those of the blob its digests resolve to. -/
def installBytes (c : Cache) (artifact : Artifact) : Option Bytes :=
  (contentKey c artifact).bind fun blake3 =>
    match Cas.blobPath blake3 with
    | .ok key => c.blobs key
    | .error _ => none

/-- The place of an artifact in a directory, where joining the two paths leads. -/
def placeOf (targetDir : Text) (artifact : Artifact) : Place :=
  locate (joinDest targetDir artifact.path)

/-- The last of some artifacts whose path leads to a place, which is the one whose content
is there after all of them have been installed in order. -/
def lastAt (targetDir : Text) (artifacts : List Artifact) (p : Place) : Option Artifact :=
  artifacts.reverse.find? fun a => placeOf locate targetDir a = p

/-- **The artifacts stand for themselves**: at the place of each, the last artifact whose
path leads there resolves to bytes that have every digest it declares. -/
def StandsFor (D : Digests) (targetDir : Text) (artifacts : List Artifact) (c : Cache) : Prop :=
  ∀ a ∈ artifacts, ∃ last ∈ lastAt locate targetDir artifacts (placeOf locate targetDir a),
    ∃ b ∈ installBytes c last, a.hashes.Match D b

/-- **The artifacts are installed**: the file at the place of each has every digest it declares. -/
def InstalledAll (D : Digests) (targetDir : Text) (artifacts : List Artifact) (h : Machine) :
    Prop :=
  ∀ a ∈ artifacts, ∃ b ∈ FileTree.contentAt (placeOf locate targetDir a) h.files,
    a.hashes.Match D b

variable {locate os}

/-! ## One artifact -/

theorem err_ne_ok {α : Type} {e : Error} {a : α} {h h' : Machine}
    (heq : ((.err e, h) : Exit Error α × Machine) = (.ok a, h')) : False := by
  cases heq

/-- A destination that was cleared was no directory; nothing else changed. -/
theorem clearDest_ok {dest : Text} {h h' : Machine}
    (hok : clearDest locate os dest h = (.ok (), h')) :
    h'.disk = h.disk ∧ ChangedAt (locate dest) h h'.files := by
  obtain ⟨files, hstate, hchanged, -⟩ := @clearDest_spec locate os dest h
  rw [hok] at hstate
  obtain rfl : h' = { h with files := files } := hstate
  exact ⟨rfl, hchanged⟩

/-- A blob that was linked is at the destination. -/
theorem linkBlob_ok {bytes : Bytes} {dest : Text} {kind : LinkKind} {h h' : Machine}
    (hok : linkBlob locate os bytes dest h = (.ok kind, h')) :
    h' = { h with files := FileTree.write (locate dest) bytes h.files } := by
  unfold linkBlob at hok
  cases hlink : os.link dest with
  | ok kind' =>
    rw [hlink] at hok
    exact (congrArg Prod.snd hok).symm
  | error failure =>
    obtain ⟨reason, left⟩ := failure
    rw [hlink] at hok
    cases left with
    | none => exact (err_ne_ok hok).elim
    | some part => exact (err_ne_ok hok).elim

/-- What was taken out of a result leaves the state. -/
theorem of_ofExcept_ok {α : Type} {r : Except Error α} {a : α} {h h' : Machine}
    (hok : (ofExcept r : Program Machine Error α) h = (.ok a, h')) : r = .ok a ∧ h' = h := by
  cases r with
  | error e => exact (err_ne_ok hok).elim
  | ok b =>
    have hpair : (Exit.ok b, h) = (Exit.ok a, h') := hok
    cases hpair
    exact ⟨rfl, rfl⟩

/-- **A view that was made** has the bytes of the blob; nothing else changed. -/
theorem materialize_ok {blake3 dest : Text} {kind : LinkKind} {h h' : Machine}
    (hok : materialize locate os blake3 dest h = (.ok kind, h')) :
    ∃ key b, Cas.blobPath blake3 = .ok key ∧ h.disk.cache.blobs key = some b ∧
      h'.disk = h.disk ∧ FileTree.contentAt (locate dest) h'.files = some b ∧
      ChangedAt (locate dest) h h'.files := by
  unfold materialize at hok
  obtain ⟨key, h₁, hpath, hrest⟩ := bind_eq_ok hok
  obtain ⟨hkey, hsame⟩ := of_ofExcept_ok hpath
  rw [hsame, bind_apply, get_apply, andThen_ok] at hrest
  cases hblob : h.disk.cache.blobs key with
  | none =>
    rw [hblob] at hrest
    exact (err_ne_ok hrest).elim
  | some b =>
    rw [hblob] at hrest
    dsimp only at hrest
    by_cases hblocked : blocked (locate dest) h = true
    · rw [if_pos hblocked] at hrest
      exact (err_ne_ok hrest).elim
    · rw [if_neg hblocked] at hrest
      cases hdir : os.createDirAll dest with
      | some reason =>
        rw [hdir] at hrest
        exact (err_ne_ok hrest).elim
      | none =>
        rw [hdir] at hrest
        obtain ⟨_, h₂, hclear, hlink⟩ := bind_eq_ok hrest
        have hcleared : h₂.disk = h.disk ∧ ChangedAt (locate dest) h h₂.files := by
          by_cases hocc : occupied (locate dest) h = true
          · rw [whenever_true hocc] at hclear
            exact clearDest_ok hclear
          · rw [whenever_false hocc] at hclear
            obtain rfl : h = h₂ := congrArg Prod.snd hclear
            exact ⟨rfl, fun _ _ => rfl⟩
        have hfiles := linkBlob_ok hlink
        subst hfiles
        refine ⟨key, b, hkey, hblob, hcleared.1, FileTree.contentAt_write_self _ _ _,
          fun q hq => ?_⟩
        exact (FileTree.contentAt_write_of_ne hq _ _).trans (hcleared.2 q hq)

/-- **An artifact that was installed** has its bytes at its place; the cache and the
other files are as they were. -/
theorem installArtifact_ok {targetDir : Text} {a : Artifact} {view : InstallView}
    {h h' : Machine} (hok : installArtifact locate os targetDir a h = (.ok view, h')) :
    h'.disk.cache = h.disk.cache ∧
      (∃ b, installBytes h.disk.cache a = some b ∧
        FileTree.contentAt (placeOf locate targetDir a) h'.files = some b) ∧
      ChangedAt (placeOf locate targetDir a) h h'.files := by
  unfold installArtifact at hok
  obtain ⟨_, h₁, hpath, hrest⟩ := bind_eq_ok hok
  obtain ⟨-, hsame⟩ := of_ofExcept_ok hpath
  rw [hsame, bind_apply, get_apply, andThen_ok] at hrest
  cases hkey : contentKey h.disk.cache a with
  | none =>
    rw [hkey] at hrest
    exact (err_ne_ok hrest).elim
  | some blake3 =>
    rw [hkey] at hrest
    obtain ⟨kind, h₂, hmade, hlast⟩ := bind_eq_ok hrest
    obtain rfl : recordInstall (joinDest targetDir a.path) blake3 h₂ = h' :=
      congrArg Prod.snd hlast
    obtain ⟨key, b, hblobPath, hblob, hdisk, hcontent, hchanged⟩ := materialize_ok hmade
    refine ⟨?_, ⟨b, ?_, hcontent⟩, hchanged⟩
    · show h₂.disk.cache = h.disk.cache
      rw [hdisk]
    · unfold installBytes
      rw [hkey, Option.bind_some, hblobPath]
      exact hblob

/-! ## All artifacts -/

/-- The last artifact at a place is the last of the rest, or the first if no other leads there. -/
theorem lastAt_cons (targetDir : Text) (a : Artifact) (rest : List Artifact) (p : Place) :
    lastAt locate targetDir (a :: rest) p = (lastAt locate targetDir rest p).or
      (if placeOf locate targetDir a = p then some a else none) := by
  unfold lastAt
  rw [List.reverse_cons, List.find?_append, List.find?_singleton]
  simp only [decide_eq_true_eq]

/-- **What an install leaves**: at a place an artifact's path leads to, the bytes of the
last such artifact; at any other place, what was there. -/
theorem installArtifacts_contents {targetDir : Text} {artifacts : List Artifact}
    {views : List InstallView} {h h' : Machine}
    (hok : installArtifacts locate os targetDir artifacts h = (.ok views, h')) (p : Place) :
    match lastAt locate targetDir artifacts p with
    | some a => ∃ b, installBytes h.disk.cache a = some b ∧
        FileTree.contentAt p h'.files = some b
    | none => FileTree.contentAt p h'.files = FileTree.contentAt p h.files := by
  induction artifacts generalizing h views with
  | nil =>
    obtain rfl : h = h' := congrArg Prod.snd hok
    rfl
  | cons a rest ih =>
    unfold installArtifacts at hok
    obtain ⟨view, h₁, hfirst, hok⟩ := bind_eq_ok hok
    obtain ⟨views', h₂, hrest, hok⟩ := bind_eq_ok hok
    obtain rfl : h₂ = h' := congrArg Prod.snd hok
    obtain ⟨hcache, ⟨b, hb, hcontent⟩, hchanged⟩ := installArtifact_ok hfirst
    have hlater := ih hrest
    rw [lastAt_cons]
    cases hlast : lastAt locate targetDir rest p with
    | some a' =>
      rw [hlast, hcache] at hlater
      exact hlater
    | none =>
      rw [hlast] at hlater
      rw [Option.none_or]
      by_cases hp : placeOf locate targetDir a = p
      · subst hp
        rw [if_pos rfl]
        exact ⟨b, hb, hlater.trans hcontent⟩
      · rw [if_neg hp]
        exact hlater.trans (hchanged p (Ne.symm hp))

/-- Some artifact is the last at the place of an artifact. -/
theorem lastAt_isSome {targetDir : Text} {artifacts : List Artifact} {a : Artifact}
    (ha : a ∈ artifacts) :
    ∃ last, lastAt locate targetDir artifacts (placeOf locate targetDir a) = some last := by
  rw [← Option.isSome_iff_exists]
  unfold lastAt
  rw [List.find?_isSome]
  exact ⟨a, List.mem_reverse.mpr ha, decide_eq_true rfl⟩

/-- Where no two paths lead to one place, an artifact is the last at its own. -/
theorem lastAt_of_distinct {targetDir : Text} {artifacts : List Artifact}
    (hdistinct : ∀ a ∈ artifacts, ∀ a' ∈ artifacts,
      placeOf locate targetDir a' = placeOf locate targetDir a → a' = a)
    {a : Artifact} (ha : a ∈ artifacts) :
    lastAt locate targetDir artifacts (placeOf locate targetDir a) = some a := by
  obtain ⟨last, hlast⟩ := @lastAt_isSome locate targetDir artifacts a ha
  have hmem := List.mem_reverse.mp (List.mem_of_find?_eq_some hlast)
  have hplace : decide (placeOf locate targetDir last = placeOf locate targetDir a) = true :=
    List.find?_some (p := fun last => decide
      (placeOf locate targetDir last = placeOf locate targetDir a)) hlast
  rw [hlast, hdistinct a ha last hmem (of_decide_eq_true hplace)]

/-- An install that returned installed the artifacts of the stored manifest. -/
theorem materializeInstall_ok {manifestId targetDir : Text} {m : Manifest}
    {views : List InstallView} {h h' : Machine}
    (hm : requireManifest manifestId h.disk = .ok m)
    (hok : materializeInstall locate os manifestId targetDir h = (.ok views, h')) :
    installArtifacts locate os targetDir m.artifacts h = (.ok views, h') := by
  unfold materializeInstall at hok
  rw [bind_apply, get_apply, andThen_ok, hm] at hok
  exact hok

/-- **A manifest is installed as it declares if and only if its artifacts stand for
themselves**, whenever `materializeInstall` returns. If no two of their paths lead to
one place, they do when each resolves to bytes that have every digest it declares. -/
theorem installs_completely_iff (D : Digests) {manifestId targetDir : Text} {m : Manifest}
    {views : List InstallView} {h h' : Machine}
    (hm : requireManifest manifestId h.disk = .ok m)
    (hok : materializeInstall locate os manifestId targetDir h = (.ok views, h')) :
    (InstalledAll locate D targetDir m.artifacts h' ↔
        StandsFor locate D targetDir m.artifacts h.disk.cache) ∧
      ((∀ a ∈ m.artifacts, ∀ a' ∈ m.artifacts,
          placeOf locate targetDir a' = placeOf locate targetDir a → a' = a) →
        (StandsFor locate D targetDir m.artifacts h.disk.cache ↔
          ∀ a ∈ m.artifacts, ∃ b ∈ installBytes h.disk.cache a, a.hashes.Match D b)) := by
  have hall := materializeInstall_ok hm hok
  refine ⟨forall₂_congr fun a ha => ?_, fun hdistinct => forall₂_congr fun a ha => ?_⟩
  · obtain ⟨last, hlast⟩ := @lastAt_isSome locate targetDir m.artifacts a ha
    have hcontent := installArtifacts_contents hall (placeOf locate targetDir a)
    rw [hlast] at hcontent
    obtain ⟨b, hb, hfile⟩ := hcontent
    rw [hlast, hfile]
    constructor
    · rintro ⟨b', hb', hmatch⟩
      obtain rfl := Option.some.inj hb'
      exact ⟨last, rfl, b, hb, hmatch⟩
    · rintro ⟨last', hlast', b', hb', hmatch⟩
      obtain rfl := Option.some.inj hlast'
      obtain rfl := Option.some.inj (hb.symm.trans hb')
      exact ⟨b, rfl, hmatch⟩
  · rw [lastAt_of_distinct hdistinct ha]
    simp

/-! ## One path twice -/

/-- A manifest of two files with one path, so that only one of them can be at it. -/
def twinManifest : Manifest :=
  { abcManifest with
    manifestId := "twins".toList
    artifacts := (modelManifest "first".toList abc).artifacts ++
      (modelManifest "second".toList []).artifacts }

/-- The same two files, each with a path of its own, so that installing both of them loses
neither; the condition of the theorem is met here. -/
def pairManifest : Manifest :=
  { twinManifest with
    manifestId := "pair".toList
    artifacts := (modelManifest "first".toList abc).artifacts ++
      (modelManifest "second".toList []).artifacts.map fun a =>
        { a with path := "config.bin".toList } }

/-- Both files are in the cache, each with a manifest of its own, and the two manifests of
both are imported. -/
def twinStore : Machine :=
  runOps sampleDigests slashes [
    .fetch (.importLocalFile abc (modelManifest "first".toList abc)) first_fetches,
    .fetch (.importLocalFile [] (modelManifest "second".toList [])) second_fetches,
    .fetch (.importManifest twinManifest) rfl,
    .fetch (.importManifest pairManifest) rfl]

/-- Installing a manifest into an empty directory, on a file system that clones. -/
def twinInstall (manifestId : Text) : Exit Error (List InstallView) × Machine :=
  materializeInstall slashes (.willing .reflink) manifestId "models".toList twinStore

/-- A view of the first file that was linked, as an install records it, so that an example
need not run an install before. -/
def modelView : InstallView := ⟨"model.bin".toList, "models/model.bin".toList, .reflink⟩

/-- A view of the second file, which has a path of its own. -/
def configView : InstallView := ⟨"config.bin".toList, "models/config.bin".toList, .reflink⟩

/-- With distinct paths, both files are installed as they are declared. -/
theorem pair_installed :
    InstalledAll slashes sampleDigests "models".toList pairManifest.artifacts
      (twinInstall "pair".toList).2 := by
  have hok : materializeInstall slashes (.willing .reflink) "pair".toList "models".toList
      twinStore = (.ok [modelView, configView], (twinInstall "pair".toList).2) :=
    eq_of_fst_eq (by decide +kernel)
  obtain ⟨hinstalled, hstands⟩ := installs_completely_iff sampleDigests
    (show requireManifest "pair".toList twinStore.disk = .ok pairManifest by decide +kernel) hok
  refine hinstalled.mpr ((hstands (by decide +kernel)).mpr
    (List.forall_mem_cons.mpr ⟨?_, List.forall_mem_singleton.mpr ?_⟩))
  · exact ⟨abc, by decide +kernel, fun _ => eqIgnoreAsciiCase_refl _,
      fun _ => eqIgnoreAsciiCase_refl _, nofun⟩
  · exact ⟨[], by decide +kernel, fun _ => eqIgnoreAsciiCase_refl _,
      fun _ => eqIgnoreAsciiCase_refl _, nofun⟩

/-- **One file is lost to the other**: the manifest is valid and `materializeInstall`
returns two views, but the one file has the second content. -/
theorem twin_paths_overwritten :
    twinManifest.validate.toBool = true ∧
      (twinInstall "twins".toList).1 = .ok [modelView, modelView] ∧
      ¬ InstalledAll slashes sampleDigests "models".toList twinManifest.artifacts
        (twinInstall "twins".toList).2 := by
  refine ⟨by decide +kernel, by decide +kernel, fun hall => ?_⟩
  obtain ⟨b, hb, hmatch⟩ := hall _ (List.mem_cons_self ..)
  have hcontent : FileTree.contentAt (slashes "models/model.bin".toList)
      (twinInstall "twins".toList).2.files = some [] := by decide +kernel
  obtain rfl := Option.some.inj (hcontent.symm.trans hb)
  exact absurd (hmatch.sha256 (by decide +kernel)) (by decide +kernel)

end Machine

end Atlas
