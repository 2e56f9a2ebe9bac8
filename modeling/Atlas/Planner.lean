import Mathlib.Data.List.Sort
import Atlas.Document
import Atlas.Store

/-!
# Which sources a plan may use

A publisher may restrict the classes of sources a model is fetched from. The list is
read leniently, and the planner takes an empty list for no restriction at all, so a
list of which nothing is understood restricts nothing.

`plan_within_allow_list_iff` says exactly when a plan stays within the list as it is
written in the document: some entry is a class that this build knows, or the artifact
has no source that could be fetched from anyway.
-/

namespace Atlas

open Text Json

/-! ## Profiles -/

/-- The platform a build is for, of which there is one. -/
inductive PlatformProfile.Platform where
  | desktop
  deriving DecidableEq, Repr

/-- What the platform permits, and the conditions it runs under. -/
structure PlatformProfile where
  platform : PlatformProfile.Platform
  /-- Whether Hugging Face may be used to download bytes. -/
  huggingfaceDownload : Bool
  /-- The network is metered. -/
  metered : Bool
  batterySaver : Bool
  deriving DecidableEq, Repr

/-- The profile of the desktop application, which permits everything but downloads from
Hugging Face and saves nothing. -/
def PlatformProfile.desktop : PlatformProfile := ⟨.desktop, false, false, false⟩

/-- How the user wants downloads routed across transports, from the settings. -/
inductive DownloadPreference where
  | auto
  | preferP2p
  | preferBittorrent
  | saveData
  deriving DecidableEq, Repr

/-- Whether a source class is permitted to fetch from. BitTorrent is when its adapter
was built in. -/
def PlatformProfile.fetchEnabled (bittorrent : Bool) (profile : PlatformProfile) :
    SourceClass → Bool
  | .huggingface => profile.huggingfaceDownload
  -- kept only so that old manifests can be read
  | .lanPeer => false
  | .localFile => true
  | .httpsMirror => true
  | .iroh => true
  | .bittorrentV2 => bittorrent

/-- The name of a class in messages, as the source's debug format prints it. -/
def SourceClass.debug : SourceClass → Text
  | huggingface => "Huggingface".toList
  | httpsMirror => "HttpsMirror".toList
  | iroh => "Iroh".toList
  | bittorrentV2 => "BittorrentV2".toList
  | lanPeer => "LanPeer".toList
  | localFile => "LocalFile".toList

/-- The platform as it is printed in the reason why a source is not used. -/
def PlatformProfile.Platform.debug : PlatformProfile.Platform → Text
  | desktop => "Desktop".toList

/-! ## Policy -/

/-- Whether a particular source may be fetched from for this manifest, on this
platform, and why. -/
def sourceFetchAllowed (bittorrent : Bool) (manifest : Manifest) (source : Source)
    (profile : PlatformProfile) : Bool × Text :=
  let sourceClass := source.sourceClass
  -- the publisher's allow-list, when present, is authoritative
  if manifest.access.allowedSourceClasses ≠ [] ∧
      sourceClass ∉ manifest.access.allowedSourceClasses then
    (false, sourceClass.debug ++ " not in manifest allowed_source_classes".toList)
  else if !profile.fetchEnabled bittorrent sourceClass then
    if sourceClass = .huggingface then
      (false, "Hugging Face downloads are off — P2P only (enable in Settings)".toList)
    else
      (false, sourceClass.debug ++ " disabled on ".toList ++ profile.platform.debug)
  else (true, "ok".toList)

/-! ## Plans -/

/-- A source with its computed score and eligibility verdict; the verdict says also why a
source is not eligible. -/
structure ScoredSource (σ : Type) where
  source : Source
  sourceId : Text
  score : σ
  eligible : Bool
  reason : Text

/-- The plan for fetching one artifact: what will be tried, in order, and what will not, and
why. -/
structure Plan (σ : Type) where
  /-- Eligible sources, best first. -/
  eligible : List (ScoredSource σ)
  /-- Excluded sources with the reason. -/
  excluded : List (ScoredSource σ)

section Planning

/-! Scores are floating-point numbers. What a score is, how a source is scored and
which of two scores comes first are parameters; nothing here depends on them. -/

variable {σ : Type} (zero : σ)
  (scoreSource : SourceClass → SourceHealth → PlatformProfile → DownloadPreference →
    Option ℕ → σ)
  (before : σ → σ → Bool) (bittorrent : Bool)

/-- The verdict on one source: eligible with its score, or excluded with the reason that is
shown. -/
def planSource (manifest : Manifest) (profile : PlatformProfile)
    (preference : DownloadPreference) (peers : Option ℕ) (health : Text → SourceHealth)
    (now : ℕ) (source : Source) : ScoredSource σ :=
  let sourceId := source.sourceId
  let (allowed, why) := sourceFetchAllowed bittorrent manifest source profile
  if !allowed then ⟨source, sourceId, zero, false, why⟩
  else
    let h := health sourceId
    if banActive now h then
      ⟨source, sourceId, zero, false,
        "source banned after integrity failure (cooling down)".toList⟩
    else
      ⟨source, sourceId, scoreSource source.sourceClass h profile preference peers, true,
        "eligible".toList⟩

/-- Build a fetch plan, highest score first; equal scores keep manifest order. -/
def planArtifactWith (manifest : Manifest) (artifact : Artifact) (profile : PlatformProfile)
    (preference : DownloadPreference) (peers : Option ℕ) (health : Text → SourceHealth)
    (now : ℕ) : Plan σ :=
  let verdicts := artifact.sources.map
    (planSource zero scoreSource bittorrent manifest profile preference peers health now)
  { eligible := (verdicts.filter ScoredSource.eligible).insertionSort
      fun a b => before a.score b.score
    excluded := verdicts.filter fun s => !s.eligible }

/-- A source that could be fetched from if the publisher restricts nothing. -/
def Fetchable (profile : PlatformProfile) (health : Text → SourceHealth) (now : ℕ)
    (source : Source) : Prop :=
  profile.fetchEnabled bittorrent source.sourceClass = true ∧
    banActive now (health source.sourceId) = false

instance (profile : PlatformProfile) (health : Text → SourceHealth) (now : ℕ)
    (source : Source) : Decidable (Fetchable bittorrent profile health now source) :=
  inferInstanceAs (Decidable (_ ∧ _))

variable {zero scoreSource before bittorrent}

/-- **What is eligible** are the fetchable sources within the list that was read. -/
theorem mem_eligible {manifest : Manifest} {artifact : Artifact} {profile : PlatformProfile}
    {preference : DownloadPreference} {peers : Option ℕ} {health : Text → SourceHealth} {now : ℕ}
    {source : Source} :
    (∃ s ∈ (planArtifactWith zero scoreSource before bittorrent manifest artifact profile
        preference peers health now).eligible, s.source = source) ↔
      source ∈ artifact.sources ∧ Fetchable bittorrent profile health now source ∧
        (manifest.access.allowedSourceClasses = [] ∨
          source.sourceClass ∈ manifest.access.allowedSourceClasses) := by
  -- what `planSource` decides of one source; sorting and filtering then only rearrange these
  -- verdicts
  have hverdict : ∀ source : Source,
      (planSource zero scoreSource bittorrent manifest profile preference peers health now
          source).source = source ∧
        ((planSource zero scoreSource bittorrent manifest profile preference peers health now
          source).eligible = true ↔ Fetchable bittorrent profile health now source ∧
            (manifest.access.allowedSourceClasses = [] ∨
              source.sourceClass ∈ manifest.access.allowedSourceClasses)) := by
    intro source
    have hallowed : (sourceFetchAllowed bittorrent manifest source profile).1 = true ↔
        profile.fetchEnabled bittorrent source.sourceClass = true ∧
          (manifest.access.allowedSourceClasses = [] ∨
            source.sourceClass ∈ manifest.access.allowedSourceClasses) := by
      unfold sourceFetchAllowed
      dsimp only
      split
      · rename_i h
        exact iff_of_false Bool.false_ne_true fun hboth => hboth.2.elim h.1 h.2
      · rename_i h
        have hlist : manifest.access.allowedSourceClasses = [] ∨
            source.sourceClass ∈ manifest.access.allowedSourceClasses := by
          by_contra hnot
          exact h (not_or.mp hnot)
        split
        · rename_i hdisabled
          have hoff : profile.fetchEnabled bittorrent source.sourceClass = false := by
            simpa using hdisabled
          have hnot : ¬ (profile.fetchEnabled bittorrent source.sourceClass = true ∧
              (manifest.access.allowedSourceClasses = [] ∨
                source.sourceClass ∈ manifest.access.allowedSourceClasses)) := by
            rw [hoff]
            exact fun hboth => Bool.false_ne_true hboth.1
          split
          · exact iff_of_false Bool.false_ne_true hnot
          · exact iff_of_false Bool.false_ne_true hnot
        · rename_i henabled
          exact iff_of_true rfl ⟨by simpa using henabled, hlist⟩
    unfold planSource Fetchable
    dsimp only
    cases hfirst : (sourceFetchAllowed bittorrent manifest source profile).1 with
    | false =>
      rw [hfirst] at hallowed
      exact ⟨rfl, iff_of_false Bool.false_ne_true fun hboth =>
        Bool.false_ne_true (hallowed.mpr ⟨hboth.1.1, hboth.2⟩)⟩
    | true =>
      obtain ⟨henabled, hlist⟩ := hallowed.mp hfirst
      -- a banned source stays in the plan but is not eligible
      cases hban : banActive now (health source.sourceId) with
      | true => exact ⟨rfl, iff_of_false Bool.false_ne_true fun hboth => nomatch hboth.1.2⟩
      | false => exact ⟨rfl, iff_of_true rfl ⟨⟨henabled, rfl⟩, hlist⟩⟩
  constructor
  · rintro ⟨s, hs, rfl⟩
    obtain ⟨hmap, heligible⟩ := List.mem_filter.mp ((List.perm_insertionSort _ _).mem_iff.mp hs)
    obtain ⟨source, hsource, rfl⟩ := List.mem_map.mp hmap
    rw [(hverdict source).1]
    exact ⟨hsource, (hverdict source).2.mp heligible⟩
  · rintro ⟨hsource, hfetchable⟩
    refine ⟨_, (List.perm_insertionSort _ _).mem_iff.mpr (List.mem_filter.mpr
      ⟨List.mem_map.mpr ⟨source, hsource, rfl⟩, (hverdict source).2.mpr hfetchable⟩),
      (hverdict source).1⟩

end Planning

/-! ## The list as it is written -/

/-- The entries of the allow-list of a document, as they stand in it, before any is read as
a class. -/
def allowedEntries (doc : Json) : Option (List Json) :=
  ((pick Document.record.names "access".toList doc).bind
    (pick Access.record.names "allowed_source_classes".toList)).bind fun
      | arr entries => some entries
      | _ => none

/-- An entry names a class. Its name alone does, and an object whose only member has
that name, with nothing as its value. -/
def NamesClass (entry : Json) (c : SourceClass) : Prop :=
  entry.canonical = str c.name ∨ entry.canonical = obj [(c.name, null)]

theorem SourceClass.ofName_eq_some_iff {s : Text} {c : SourceClass} :
    SourceClass.ofName s = some c ↔ s = c.name := by
  constructor
  · intro h
    exact (name_of_ofName s c h).symm
  · intro h
    rw [h, SourceClass.ofName_name]

/-- The entries that are understood are those that name a class this build knows. -/
theorem namesClass_iff {entry : Json} {c : SourceClass} :
    NamesClass entry c ↔ SourceClass.codec.decode entry.canonical = some c := by
  unfold NamesClass
  generalize entry.canonical = j
  constructor
  · rintro (h | h)
    · rw [h]
      exact SourceClass.ofName_name c
    · rw [h]
      exact SourceClass.ofName_name c
  · intro h
    unfold SourceClass.codec Codec.choice at h
    dsimp only at h
    split at h
    · exact Or.inl (congrArg str (SourceClass.ofName_eq_some_iff.mp h))
    · rename_i k v
      split at h
      · rename_i hnull
        have hv : v = null := by
          cases v with
          | null => rfl
          | _ => cases hnull
        rw [SourceClass.ofName_eq_some_iff.mp h, hv]
        exact Or.inr rfl
      · cases h
    · cases h

/-- **What is read of an allow-list** are the entries that are understood. -/
theorem allowed_of_fromJson {doc : Json} {d : Document} {entries : List Json}
    (h : Document.fromJson doc = some d) (hentries : allowedEntries doc = some entries) :
    d.access.allowedSourceClasses =
      entries.filterMap fun entry => SourceClass.codec.decode entry.canonical := by
  obtain ⟨j, hj, haccess⟩ := Document.access_of_fromJson h
  obtain ⟨p, hp, heq⟩ := Option.map_eq_some_iff.mp (Codec.decode_object haccess)
  obtain ⟨gated, signed, allowed⟩ := p
  have hallowed := (Record.decode_cons.mp (Record.decode_cons.mp hp).2).2
  have hlist : d.access.allowedSourceClasses = allowed :=
    (congrArg Access.allowedSourceClasses heq).symm
  obtain ⟨value, hvalue, harr⟩ := Option.bind_eq_some_iff.mp hentries
  rw [hj, Option.bind_some] at hvalue
  have hread : (Member.defaulted "allowed_source_classes".toList
      (.lenient SourceClass.codec) []).decode (some value) = some allowed := by
    rw [← hvalue]
    exact hallowed
  rw [hlist]
  cases value with
  | arr items =>
    cases harr
    exact (Option.some.inj hread).symm
  | _ => cases harr

/-- A class is read from the list exactly if an entry names it. -/
theorem mem_allowed_iff {doc : Json} {d : Document} {entries : List Json}
    (h : Document.fromJson doc = some d) (hentries : allowedEntries doc = some entries)
    {c : SourceClass} :
    c ∈ d.access.allowedSourceClasses ↔ ∃ entry ∈ entries, NamesClass entry c := by
  rw [allowed_of_fromJson h hentries, List.mem_filterMap]
  exact exists_congr fun entry => and_congr_right fun _ => namesClass_iff.symm

/-- **The plan stays within a list that is written down**, and is not empty, exactly if
some entry is understood, or the artifact has nothing that could be fetched from. -/
theorem plan_within_allow_list_iff {σ : Type} {zero : σ}
    {scoreSource : SourceClass → SourceHealth → PlatformProfile → DownloadPreference →
      Option ℕ → σ} {before : σ → σ → Bool} {bittorrent : Bool} {doc : Json} {d : Document}
    {entries : List Json} (h : Document.fromJson doc = some d)
    (hentries : allowedEntries doc = some entries) (artifact : Artifact)
    (profile : PlatformProfile) (preference : DownloadPreference) (peers : Option ℕ)
    (health : Text → SourceHealth) (now : ℕ) :
    (∀ s ∈ (planArtifactWith zero scoreSource before bittorrent d.manifest artifact profile
        preference peers health now).eligible,
      ∃ entry ∈ entries, NamesClass entry s.source.sourceClass) ↔
    (∃ entry ∈ entries, ∃ c, NamesClass entry c) ∨
      ∀ source ∈ artifact.sources, ¬ Fetchable bittorrent profile health now source := by
  have hmem : ∀ {c : SourceClass}, c ∈ d.access.allowedSourceClasses ↔
      ∃ entry ∈ entries, NamesClass entry c := mem_allowed_iff h hentries
  have heligible : ∀ {source : Source},
      (∃ s ∈ (planArtifactWith zero scoreSource before bittorrent d.manifest artifact profile
          preference peers health now).eligible, s.source = source) ↔
        source ∈ artifact.sources ∧ Fetchable bittorrent profile health now source ∧
          (d.access.allowedSourceClasses = [] ∨
            source.sourceClass ∈ d.access.allowedSourceClasses) := mem_eligible
  constructor
  · intro hwithin
    by_cases hnone : d.access.allowedSourceClasses = []
    · -- nothing was understood, so everything fetchable is eligible
      refine Or.inr fun source hsource hfetchable => ?_
      obtain ⟨s, hs, rfl⟩ := heligible.mpr ⟨hsource, hfetchable, Or.inl hnone⟩
      have hlisted := hmem.mpr (hwithin s hs)
      rw [hnone] at hlisted
      cases hlisted
    · obtain ⟨c, hc⟩ := List.exists_mem_of_ne_nil _ hnone
      obtain ⟨entry, hentry, hnames⟩ := hmem.mp hc
      exact Or.inl ⟨entry, hentry, c, hnames⟩
  · intro hsome s hs
    obtain ⟨hsource, hfetchable, hlist⟩ := heligible.mp ⟨s, hs, rfl⟩
    obtain ⟨entry, hentry, c, hc⟩ | hnothing := hsome
    · have hlisted := hmem.mpr ⟨entry, hentry, hc⟩
      obtain hnil | hclass := hlist
      · rw [hnil] at hlisted
        cases hlisted
      · exact hmem.mp hclass
    · exact absurd hfetchable (hnothing _ hsource)

/-! ## A list of which nothing is understood -/

/-- A document with an allow-list, and one artifact on a mirror, so that only the list of
allowed classes varies between examples. -/
def restrictedDocument (entries : List Json) : Json :=
  obj [("schema_version".toList, str "1.0".toList),
    ("manifest_id".toList, str "mdl_b3_test".toList),
    ("publisher".toList, obj [("id".toList, str "hf:Qwen/Qwen3-8B-Instruct-GGUF".toList)]),
    ("model".toList, obj [("name".toList, str "Qwen3 8B Instruct GGUF".toList)]),
    ("license".toList, obj [("spdx".toList, str "apache-2.0".toList),
      ("redistribution".toList, str "public_p2p_allowed".toList)]),
    ("access".toList, obj [("allowed_source_classes".toList, arr entries)]),
    ("artifacts".toList, arr [obj [
      ("path".toList, str "qwen3-8b-instruct-q4_k_m.gguf".toList),
      ("role".toList, str "weights".toList),
      ("size_bytes".toList, num (ofNat 4920000000)),
      ("hashes".toList, obj [("blake3".toList, str (List.replicate 64 'a')),
        ("sha256".toList, str (List.replicate 64 'c'))]),
      ("sources".toList, arr [obj [("type".toList, str "https_mirror".toList),
        ("url".toList, str "https://mirror.example/model.gguf".toList)]])]])]

/-- The plan for the first artifact of a document, on a desktop and with no source
failed so far. The scores of one source do not matter. -/
def firstPlan (d : Document) : Plan Unit :=
  planArtifactWith () (fun _ _ _ _ _ => ()) (fun _ _ => true) true d.manifest
    (d.manifest.artifacts.headD ⟨[], 0, ⟨[], [], []⟩, none, []⟩) .desktop .auto none
    (fun id => ⟨id, 0, 0, 0, false, none⟩) 0

/-- **A list that names only an unknown class restricts nothing.** -/
theorem unknown_class_opens :
    allowedEntries (restrictedDocument [str "ipfs".toList]) = some [str "ipfs".toList] ∧
      ∃ d ∈ Document.fromJson (restrictedDocument [str "ipfs".toList]),
        d.manifest.validate.toBool = true ∧
        ∃ s ∈ (firstPlan d).eligible,
          ∀ entry ∈ [str "ipfs".toList], ¬ NamesClass entry s.source.sourceClass := by
  refine ⟨rfl, ?_⟩
  obtain ⟨d, hd, hvalid, s, hs, hclass⟩ :
      ∃ d ∈ Document.fromJson (restrictedDocument [str "ipfs".toList]),
        d.manifest.validate.toBool = true ∧
          ∃ s ∈ (firstPlan d).eligible, s.source.sourceClass = .httpsMirror := by
    decide +kernel
  refine ⟨d, hd, hvalid, s, hs, fun entry hentry => ?_⟩
  rw [List.mem_singleton.mp hentry, hclass]
  rintro (h | h)
  · have hname : "ipfs".toList = SourceClass.httpsMirror.name := str.inj h
    exact absurd hname (by decide)
  · cases h

/-- A list with a known class beside the unknown one keeps the plan within it. -/
theorem known_class_restricts :
    ∃ d ∈ Document.fromJson (restrictedDocument [str "ipfs".toList, str "https_mirror".toList]),
      ∀ s ∈ (firstPlan d).eligible,
        ∃ entry ∈ [str "ipfs".toList, str "https_mirror".toList],
          NamesClass entry s.source.sourceClass := by
  obtain ⟨d, hd⟩ : ∃ d, Document.fromJson
      (restrictedDocument [str "ipfs".toList, str "https_mirror".toList]) = some d := by
    refine Option.isSome_iff_exists.mp ?_
    decide +kernel
  refine ⟨d, hd, (plan_within_allow_list_iff hd rfl _ _ _ _ _ _).mpr (Or.inl ?_)⟩
  exact ⟨str "https_mirror".toList, List.mem_cons_of_mem _ List.mem_cons_self, .httpsMirror,
    Or.inl rfl⟩

end Atlas
