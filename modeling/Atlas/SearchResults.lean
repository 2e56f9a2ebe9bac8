import Atlas.Document
import Atlas.KeyedTable

/-!
# Search results

`aggregateResults` turns the known manifests into one result for each file, with
every place the file can be fetched from. The results are collected in a table by
the BLAKE3 an artifact declares, so a result is what the artifacts with its key, in
the order they come, are merged into (`lookup_collectResults`), and it lists what
they have and nothing else (`ResultOf`).

Artifacts that declare no BLAKE3 all go by the empty text, whatever else they
declare: they are one result, of one file or of many (`aggregateResults_groups`).
-/

namespace Atlas

open Text

/-- One place a file can be fetched from, as a search shows it. -/
structure SourceLocation where
  sourceClass : SourceClass
  locator : Text
  manifestId : Text
  requiresAuth : Bool
  deriving DecidableEq, Repr

/-- A result: one file, with every place it can be downloaded from across all known manifests. -/
structure FileResult where
  blake3 : Text
  sha256 : Text
  sizeBytes : ℕ
  displayName : Text
  format : Option Text
  models : List Text
  cached : Bool
  sources : List SourceLocation
  manifestIds : List Text
  deriving DecidableEq, Repr

/-- Where a source of a manifest is, and whether a token is asked for there. -/
def SourceLocation.of (m : Document) (src : Source) : SourceLocation where
  sourceClass := src.sourceClass
  locator := src.sourceId
  manifestId := m.manifestId
  requiresAuth := src.auth = .token

namespace FileResult

/-- The result an artifact starts, before anything is merged into it. -/
def new (cached : List Text) (art : DocumentArtifact) : FileResult where
  blake3 := art.hashes.blake3
  sha256 := art.hashes.sha256
  sizeBytes := art.sizeBytes
  displayName := art.path
  format := art.format
  models := []
  cached := cached.contains art.hashes.blake3
  sources := []
  manifestIds := []

/-- Add a text to a list that does not have it, at its end, so that the order of first
mention is kept. -/
def addText (x : Text) (xs : List Text) : List Text := if xs.contains x then xs else xs ++ [x]

/-- Add a source that is at no place the result already lists. -/
def addSource (m : Document) (r : FileResult) (src : Source) : FileResult :=
  if r.sources.any (fun s => s.locator = src.sourceId) then r
  else { r with sources := r.sources ++ [SourceLocation.of m src] }

/-- Merge an artifact of a manifest into the result of its key, or start one. -/
def merge (cached : List Text) (entry : Document × DocumentArtifact) (r : Option FileResult) :
    FileResult :=
  let (m, art) := entry
  let r := r.getD (new cached art)
  let r := { r with
    models := addText m.model.name r.models
    manifestIds := addText m.manifestId r.manifestIds }
  art.sources.foldl (addSource m) r

/-- Merge artifacts, each of a manifest, one after the other, so that the first one creates
the result and the others are added to it. -/
def mergeAll (cached : List Text) (entries : List (Document × DocumentArtifact)) :
    Option FileResult :=
  entries.foldl (fun r entry => some (merge cached entry r)) none

/-- The artifacts a result is of: those that declare its BLAKE3, in the order in which the
manifests list them. -/
def members (entries : List (Document × DocumentArtifact)) (r : FileResult) :
    List (Document × DocumentArtifact) :=
  entries.filter fun e => e.2.hashes.blake3 = r.blake3

/-- What a query is looked for in: the path, the names of the models, and the BLAKE3. -/
def haystack (lower : Text → Char → Text → Text) (r : FileResult) : Text :=
  toLowercase lower r.displayName ++ " ".toList ++
    toLowercase lower (List.intercalate " ".toList r.models) ++ " ".toList ++ r.blake3

/-- Cached first, then by name, which is the order in which results are shown. -/
def before (a b : FileResult) : Bool :=
  (a.cached && !b.cached) || (a.cached == b.cached && decide (a.displayName ≤ b.displayName))

end FileResult

/-- The artifacts of some manifests, each with its manifest, manifest after manifest, each
in its own order. -/
def artifactsOf (manifests : List Document) : List (Document × DocumentArtifact) :=
  manifests.flatMap fun m => m.artifacts.map (Prod.mk m)

/-- The table of results, one for each BLAKE3 text that an artifact declares, in the order
of the manifests. -/
def collectResults (manifests : List Document) (cached : List Text) :
    AList fun _ : Text => FileResult :=
  (artifactsOf manifests).foldl
    (fun results entry => results.upsert entry.2.hashes.blake3 (FileResult.merge cached entry)) ∅

/-- Aggregate manifests into per-file results keyed by BLAKE3, keeping every source
for each file and filtering by a case-insensitive query. An empty query matches all. -/
def aggregateResults (lower : Text → Char → Text → Text) (manifests : List Document)
    (cached : List Text) (query : Text) : List FileResult :=
  let q := toLowercase lower (trim query)
  let results := ((collectResults manifests cached).entries.map Sigma.snd).filter fun r =>
    q.isEmpty || decide (q <:+: r.haystack lower)
  results.mergeSort FileResult.before

/-! ## What a result lists -/

/-- **A result lists what some artifacts have**, each with its manifest, and nothing else. -/
structure Lists (entries : List (Document × DocumentArtifact)) (r : FileResult) : Prop where
  models : ∀ x, x ∈ r.models ↔ ∃ e ∈ entries, e.1.model.name = x
  manifestIds : ∀ x, x ∈ r.manifestIds ↔ ∃ e ∈ entries, e.1.manifestId = x
  /-- No source is lost, and none is added. -/
  locators : ∀ x, (∃ s ∈ r.sources, s.locator = x) ↔
    ∃ e ∈ entries, ∃ src ∈ e.2.sources, src.sourceId = x
  sources : ∀ s ∈ r.sources, ∃ e ∈ entries, ∃ src ∈ e.2.sources, s = SourceLocation.of e.1 src

/-- **The result of some artifacts**: it describes the first and lists them all. -/
structure ResultOf (entries : List (Document × DocumentArtifact)) (r : FileResult) : Prop
    extends Lists entries r where
  first : ∃ e ∈ entries.head?, r.blake3 = e.2.hashes.blake3 ∧ r.sha256 = e.2.hashes.sha256 ∧
    r.sizeBytes = e.2.sizeBytes ∧ r.displayName = e.2.path ∧ r.format = e.2.format

/-- Two artifacts declare a digest in common, of any one kind, so that they are one file. -/
def SharesDigest (a b : Document × DocumentArtifact) : Prop :=
  (a.2.hashes.blake3 ≠ [] ∧ a.2.hashes.blake3 = b.2.hashes.blake3) ∨
    (a.2.hashes.sha256 ≠ [] ∧ a.2.hashes.sha256 = b.2.hashes.sha256) ∨
    (a.2.hashes.gitBlobSha1 ≠ [] ∧ a.2.hashes.gitBlobSha1 = b.2.hashes.gitBlobSha1)

instance : DecidableRel SharesDigest := fun a b => by
  unfold SharesDigest
  infer_instance

namespace FileResult

theorem mem_addText {x y : Text} {xs : List Text} : y ∈ addText x xs ↔ y = x ∨ y ∈ xs := by
  unfold addText
  by_cases h : xs.contains x = true
  · rw [if_pos h]
    exact ⟨Or.inr, fun hy => hy.elim (fun he => he ▸ List.contains_iff_mem.mp h) id⟩
  · rw [if_neg h, List.mem_append, List.mem_singleton]
    exact or_comm

/-- Adding sources changes nothing but the sources. -/
theorem addSources_frame (m : Document) (srcs : List Source) (r : FileResult) :
    srcs.foldl (addSource m) r = { r with sources := (srcs.foldl (addSource m) r).sources } := by
  induction srcs generalizing r with
  | nil => rfl
  | cons src srcs ih =>
    rw [List.foldl_cons, ih]
    unfold addSource
    split
    · rfl
    · rfl

/-- The places of a result after sources were added. -/
theorem locators_addSources (m : Document) (srcs : List Source) (r : FileResult) (x : Text) :
    (∃ s ∈ (srcs.foldl (addSource m) r).sources, s.locator = x) ↔
      (∃ s ∈ r.sources, s.locator = x) ∨ ∃ src ∈ srcs, src.sourceId = x := by
  induction srcs generalizing r with
  | nil => simp
  | cons src srcs ih =>
    have hone : (∃ s ∈ (addSource m r src).sources, s.locator = x) ↔
        (∃ s ∈ r.sources, s.locator = x) ∨ src.sourceId = x := by
      unfold addSource
      by_cases h : r.sources.any (fun s => s.locator = src.sourceId) = true
      · rw [if_pos h]
        obtain ⟨s, hs, hloc⟩ := List.any_eq_true.mp h
        exact ⟨Or.inl, fun hx => hx.elim id fun he => ⟨s, hs, (of_decide_eq_true hloc).trans he⟩⟩
      · rw [if_neg h]
        simp [SourceLocation.of, or_and_right, exists_or]
    rw [List.foldl_cons, ih, hone]
    simp [or_assoc]

/-- Every place of a result is a source's. -/
theorem mem_addSources {m : Document} {srcs : List Source} {r : FileResult} {s : SourceLocation}
    (h : s ∈ (srcs.foldl (addSource m) r).sources) :
    s ∈ r.sources ∨ ∃ src ∈ srcs, s = SourceLocation.of m src := by
  induction srcs generalizing r with
  | nil => exact .inl h
  | cons src srcs ih =>
    obtain hold | ⟨src', hmem, he⟩ := ih h
    · unfold addSource at hold
      split at hold
      · exact .inl hold
      · obtain hold | hnew := List.mem_append.mp hold
        · exact .inl hold
        · exact .inr ⟨src, .head _, List.mem_singleton.mp hnew⟩
    · exact .inr ⟨src', .tail _ hmem, he⟩

/-- A result that lists nothing yet. -/
theorem lists_new (cached : List Text) (art : DocumentArtifact) : Lists [] (new cached art) where
  models x := by simp [new]
  manifestIds x := by simp [new]
  locators x := by simp [new]
  sources s hs := by cases hs

/-- What merging an artifact into a result changes. -/
theorem merge_some (cached : List Text) (m : Document) (art : DocumentArtifact) (r : FileResult) :
    ∃ sources, merge cached (m, art) (some r) =
        { r with
          models := addText m.model.name r.models
          manifestIds := addText m.manifestId r.manifestIds
          sources := sources } ∧
      (∀ x, (∃ s ∈ sources, s.locator = x) ↔
        (∃ s ∈ r.sources, s.locator = x) ∨ ∃ src ∈ art.sources, src.sourceId = x) ∧
      ∀ s ∈ sources, s ∈ r.sources ∨ ∃ src ∈ art.sources, s = SourceLocation.of m src :=
  ⟨_, addSources_frame m art.sources _, locators_addSources m art.sources _,
    fun _ => mem_addSources⟩

/-- **Merging one more artifact** adds what it has. -/
theorem lists_merge (cached : List Text) {entries : List (Document × DocumentArtifact)}
    (entry : Document × DocumentArtifact) {r : FileResult} (h : Lists entries r) :
    Lists (entries ++ [entry]) (merge cached entry (some r)) := by
  obtain ⟨m, art⟩ := entry
  obtain ⟨sources, hmerge, hloc, hsrc⟩ := merge_some cached m art r
  rw [hmerge]
  refine ⟨fun x => ?_, fun x => ?_, fun x => ?_, fun s hs => ?_⟩
  · show x ∈ addText m.model.name r.models ↔ _
    rw [mem_addText, h.models]
    simp [or_comm, eq_comm]
  · show x ∈ addText m.manifestId r.manifestIds ↔ _
    rw [mem_addText, h.manifestIds]
    simp [or_comm, eq_comm]
  · show (∃ s ∈ sources, s.locator = x) ↔ _
    rw [hloc, h.locators]
    simp [or_and_right, exists_or]
  · obtain hold | ⟨src, hmem, he⟩ := hsrc s hs
    · obtain ⟨e, he, src, hmem, heq⟩ := h.sources s hold
      exact ⟨e, List.mem_append_left _ he, src, hmem, heq⟩
    · exact ⟨(m, art), List.mem_append_right _ (.head _), src, hmem, he⟩

theorem resultOf_merge (cached : List Text) {entries : List (Document × DocumentArtifact)}
    (entry : Document × DocumentArtifact) {r : FileResult} (h : ResultOf entries r) :
    ResultOf (entries ++ [entry]) (merge cached entry (some r)) := by
  refine ⟨lists_merge cached entry h.toLists, ?_⟩
  obtain ⟨m, art⟩ := entry
  obtain ⟨sources, hmerge, -, -⟩ := merge_some cached m art r
  obtain ⟨e, he, hfirst⟩ := h.first
  rw [hmerge]
  exact ⟨e, List.mem_head?_append_of_mem_head? he, hfirst⟩

theorem resultOf_new (cached : List Text) (entry : Document × DocumentArtifact) :
    ResultOf [entry] (merge cached entry none) := by
  refine ⟨lists_merge cached entry (lists_new cached entry.2), entry, rfl, ?_⟩
  obtain ⟨m, art⟩ := entry
  obtain ⟨sources, hmerge, -, -⟩ := merge_some cached m art (new cached art)
  have hnew : merge cached (m, art) none = merge cached (m, art) (some (new cached art)) := rfl
  rw [hnew, hmerge]
  exact ⟨rfl, rfl, rfl, rfl, rfl⟩

/-- Merged artifacts are a result of them all. -/
theorem mergeAll_resultOf {cached : List Text} {entries : List (Document × DocumentArtifact)}
    {r : FileResult} (h : mergeAll cached entries = some r) : ResultOf entries r :=
  AList.foldl_merge_spec (resultOf_new cached) (fun _ e _ hr => resultOf_merge cached e hr) h

end FileResult

/-! ## The rows -/

open FileResult

/-- **What is found under a BLAKE3**: the artifacts that declare it, merged. -/
theorem lookup_collectResults (manifests : List Document) (cached : List Text) (k : Text) :
    (collectResults manifests cached).lookup k =
      mergeAll cached ((artifactsOf manifests).filter fun e => e.2.hashes.blake3 = k) :=
  AList.lookup_foldl_upsert _ _ _ _ k

/-- The results are the rows of an empty query, in some order. -/
theorem aggregateResults_perm (lower : Text → Char → Text → Text) (manifests : List Document)
    (cached : List Text) :
    (aggregateResults lower manifests cached []).Perm
      ((collectResults manifests cached).entries.map Sigma.snd) := by
  have hall : ∀ r ∈ (collectResults manifests cached).entries.map Sigma.snd,
      (([] : Text).isEmpty || decide ([] <:+: r.haystack lower)) = true := fun _ _ => rfl
  exact (List.mergeSort_perm _ _).trans (.of_eq (List.filter_eq_self.mpr hall))

/-- **A row is the artifacts of its BLAKE3, merged.** -/
theorem mem_collectResults {manifests : List Document} {cached : List Text} {k : Text}
    {r : FileResult}
    (h : (⟨k, r⟩ : (_ : Text) × FileResult) ∈ (collectResults manifests cached).entries) :
    r.blake3 = k ∧ mergeAll cached (r.members (artifactsOf manifests)) = some r := by
  have hmerge := (lookup_collectResults manifests cached k).symm.trans
    (AList.mem_entries_iff.mp h)
  obtain ⟨e, he, hblake, -⟩ := (mergeAll_resultOf hmerge).first
  have hkey : r.blake3 = k :=
    hblake.trans (of_decide_eq_true (List.mem_filter.mp (List.mem_of_mem_head? he)).2)
  refine ⟨hkey, ?_⟩
  unfold members
  rw [hkey]
  exact hmerge

/-- **The rows of the empty query group the artifacts by content, as far as they
declare a BLAKE3.** No two rows have one BLAKE3, and every artifact is in the row of
its own. A row is its artifacts merged: it lists the models, the manifests and the
sources of all of them and no other. The artifacts of a row have a declared digest
in common, any two of them, if and only if those that declare no BLAKE3 do. -/
theorem aggregateResults_groups (lower : Text → Char → Text → Text) (manifests : List Document)
    (cached : List Text) :
    ((aggregateResults lower manifests cached []).map FileResult.blake3).Nodup ∧
      (∀ e ∈ artifactsOf manifests, ∃ r ∈ aggregateResults lower manifests cached [],
        e ∈ r.members (artifactsOf manifests)) ∧
      (∀ r ∈ aggregateResults lower manifests cached [],
        mergeAll cached (r.members (artifactsOf manifests)) = some r ∧
          ResultOf (r.members (artifactsOf manifests)) r) ∧
      ((∀ r ∈ aggregateResults lower manifests cached [],
          (r.members (artifactsOf manifests)).Pairwise SharesDigest) ↔
        ((artifactsOf manifests).filter fun e => e.2.hashes.blake3 = []).Pairwise
          SharesDigest) := by
  have hperm := aggregateResults_perm lower manifests cached
  have hrow : ∀ r ∈ aggregateResults lower manifests cached [],
      mergeAll cached (r.members (artifactsOf manifests)) = some r := by
    intro r hr
    obtain ⟨⟨k, r'⟩, he, rfl⟩ := List.mem_map.mp (hperm.mem_iff.mp hr)
    exact (mem_collectResults he).2
  have hfound : ∀ e ∈ artifactsOf manifests, ∃ r ∈ aggregateResults lower manifests cached [],
      r.blake3 = e.2.hashes.blake3 := by
    intro e he
    have hmem : e ∈ (artifactsOf manifests).filter
        fun e' => e'.2.hashes.blake3 = e.2.hashes.blake3 :=
      List.mem_filter.mpr ⟨he, decide_eq_true rfl⟩
    obtain ⟨r, hr⟩ := AList.foldl_merge_isSome (merge cached) (List.ne_nil_of_mem hmem)
    have hmem := AList.mem_entries_iff.mpr ((lookup_collectResults manifests cached _).trans hr)
    exact ⟨r, hperm.mem_iff.mpr (List.mem_map.mpr ⟨_, hmem, rfl⟩), (mem_collectResults hmem).1⟩
  refine ⟨?_, fun e he => ?_, fun r hr => ⟨hrow r hr, mergeAll_resultOf (hrow r hr)⟩,
    fun h => ?_, fun h r hr => ?_⟩
  · have hkeys : ((collectResults manifests cached).entries.map Sigma.snd).map FileResult.blake3 =
        (collectResults manifests cached).keys := by
      rw [List.map_map]
      exact List.map_congr_left fun e he => (mem_collectResults he).1
    rw [(hperm.map _).nodup_iff, hkeys]
    exact AList.keys_nodup _
  · obtain ⟨r, hr, hkey⟩ := hfound e he
    exact ⟨r, hr, List.mem_filter.mpr ⟨he, decide_eq_true hkey.symm⟩⟩
  · -- the row of the empty text, if any artifact goes by it
    by_cases hnil : (artifactsOf manifests).filter (fun e => e.2.hashes.blake3 = []) = []
    · rw [hnil]
      exact .nil
    · obtain ⟨e, he⟩ := List.exists_mem_of_ne_nil _ hnil
      obtain ⟨hmem, hkey⟩ := List.mem_filter.mp he
      obtain ⟨r, hr, hblake⟩ := hfound e hmem
      have hpair := h r hr
      unfold members at hpair
      rw [hblake, of_decide_eq_true hkey] at hpair
      exact hpair
  · by_cases hkey : r.blake3 = []
    · unfold members
      rw [hkey]
      exact h
    · refine List.Pairwise.imp_of_mem (fun ha hb _ => .inl ?_) (List.pairwise_of_forall fun _ _ => trivial)
      have ha := of_decide_eq_true (List.mem_filter.mp ha).2
      have hb := of_decide_eq_true (List.mem_filter.mp hb).2
      exact ⟨fun hnil => hkey (ha.symm.trans hnil), ha.trans hb.symm⟩

/-! ## Two files of a hub -/

/-- A manifest of one file of a hub, which publishes SHA-256 only. -/
def hubManifest (id path sha256 : Text) : Document where
  schemaVersion := "0.1".toList
  manifestId := id
  publisher := ⟨"hf:org/model".toList, none, []⟩
  model := ⟨path, none, none, none, none, none⟩
  license := ⟨"apache-2.0".toList, none, .publicP2pAllowed⟩
  access := ⟨false, false, [.huggingface]⟩
  artifacts := [⟨⟨path, 3, ⟨[], sha256, []⟩, none,
    [.huggingface "org/model".toList "main".toList path .none]⟩, "weights".toList, none⟩]
  provenance := none
  signatures := []

/-- Two files with different digests, each in a manifest that declares no BLAKE3. -/
def twoHubFiles : List Document := [
  hubManifest "mdl_hf_a".toList "a.gguf".toList (List.replicate 64 'a'),
  hubManifest "mdl_hf_b".toList "b.gguf".toList (List.replicate 64 'b')]

/-- **Two files of a hub are one result**: a search lists the second as a source of the first. -/
theorem two_files_one_result :
    ¬ ∀ r ∈ aggregateResults (fun _ c _ => [c]) twoHubFiles [] [],
      (r.members (artifactsOf twoHubFiles)).Pairwise SharesDigest := by
  decide +kernel

end Atlas
