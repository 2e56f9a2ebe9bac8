import Atlas.Delimited
import Atlas.ReleaseSigning

/-!
# From the signer to the copies that update

A release goes through four hands. `noema update sign` writes the manifest; the registry
loads it when it starts, and serves it if a key it trusts signed it; a copy of the program
asks for it, and is offered the file for its platform if a key the copy trusts signed it;
and it downloads that file. What the copy is offered in the end is what the spec says of
its platform (`Spec.offered`), of the files that were in the directory when the release
was signed, exactly if both trust the signing key (`release_reaches_copies`); and what the
download accepts are the bytes with the digest of that file (`built_file_staged`).
-/

open Text Json

namespace Atlas

/-! ## The registry -/

/-- No release: what `ReleaseManifest::default` is, with every number zero and every list empty. -/
def ReleaseManifest.empty : ReleaseManifest := ⟨0, [], 0, 0, [], []⟩

/-- The manifest that a registry serves, from the file it was started with. Any problem
makes it the empty one. -/
def loadReleaseManifest (R : ReleaseReader) (file : Option Bytes) (trust : List Text)
    (allowUntrusted : Bool) : ReleaseManifest :=
  match file with
  | none => .empty
  | some bytes => match R.libs.fromJson bytes with
    | .error _ => .empty
    | .ok manifest =>
      if trust = [] then
        -- without trust keys nothing is served, unless the operator opts in
        if allowUntrusted then manifest else .empty
      else if manifest.isSignedByTrusted R.libs trust then manifest
      else .empty

/-- A short tag of what is signed of a manifest: eight bytes of the digest of its canonical
bytes, as a weak entity tag. -/
def manifestEtag (R : ReleaseReader) (m : ReleaseManifest) : Text :=
  "W/\"".toList ++ hexEncode ((R.sha256 (m.canonicalBytes R.libs)).take 8) ++ "\"".toList

/-- An answer of the registry, as the updater's client receives it. -/
structure HttpAnswer where
  status : ℕ
  etag : Text
  body : Bytes

/-- `GET /update/latest`: the whole manifest, or nothing for who has it already. -/
def updateLatest (R : ReleaseReader) (pretty : Json.Tree → Bytes) (update : ReleaseManifest)
    (ifNoneMatch : Option Text) : HttpAnswer :=
  let etag := manifestEtag R update
  let known : Bool := match ifNoneMatch with
    | some inm => (Delimited.split ',' inm).any fun t : Text => decide (t.trim = etag)
    | none => false
  if known then ⟨304, etag, []⟩
  else ⟨200, etag, pretty (ReleaseManifest.codec.encode update)⟩

/-- What Studio's updater is told of a release: its version, what to show, where it is, and
the signature to check. -/
structure StudioUpdate where
  version : Text
  notes : Text
  url : Text
  signature : Text
  deriving DecidableEq, Repr

/-- The flavors that Studio's updater can install on an OS, in the order they are looked for. -/
def studioFlavors (os : Text) : List Text :=
  if os = "macos".toList then ["app_tar_gz".toList]
  else if os = "windows".toList then ["nsis".toList, "msi".toList, "installer".toList]
  else if os = "linux".toList then ["appimage".toList]
  else []

/-- `GET /studio/update/:target/:arch/:current`; nothing is an answer of status 204; it
offers the first flavor of the system for which there is a file. -/
def studioUpdate (R : ReleaseReader) (update : ReleaseManifest) (target arch current : Text) :
    Option StudioUpdate :=
  match update.app "studio".toList with
  | none => none
  | some app =>
    if !app.isNewerThan R.libs current then none
    else
      let os := normalizeOs target
      match (studioFlavors os).findSome? fun flavor => app.selectAsset os arch (some flavor) with
      | none => none
      | some asset =>
        if asset.signature.trim = [] then none
        else some ⟨app.version, app.notesUrl, asset.url, asset.signature⟩

/-! ## What a spec offers -/

section Spec

variable (run : SignRun) (args : SignArgs) (R : ReleaseReader)

/-- An asset of a spec is for an OS, an arch and, if one is asked for, a flavor. -/
def SpecAsset.isFor (os arch : Text) (flavor : Option Text) (a : SpecAsset) : Bool :=
  normalizeOs a.os = normalizeOs os &&
    (normalizeArch a.arch = normalizeArch arch ||
      eqIgnoreAsciiCase a.arch "universal".toList) &&
    flavor.all fun f => eqIgnoreAsciiCase a.flavor f

/-- What a spec says of an app, whose name may be in any case. -/
def Spec.app (spec : Spec) (name : Text) : Option SpecApp :=
  spec.apps.find? fun sa => eqIgnoreAsciiCase sa.app name

/-- The asset of an app for a platform, the first that fits. -/
def SpecApp.selectAsset (sa : SpecApp) (os arch : Text) (flavor : Option Text) :
    Option SpecAsset :=
  sa.assets.find? (SpecAsset.isFor os arch flavor)

/-- **What a spec offers a copy**, of the files that were built: the asset for its
platform, unless the copy is as new, or the release is stale. -/
def Spec.offered (host : Host) (now : ℤ) (current : Text) (spec : Spec) : Option UpdateInfo :=
  if EXPIRY_SKEW_MS < saturatingSub now (expiresAt run.now args.expiresDays) then none
  else (spec.app "atlas".toList).bind fun sa =>
    if versionGt R.libs sa.version current then
      (sa.selectAsset host.os host.arch host.flavor.assetFlavor).bind fun asset =>
        (run.platformAsset args R asset).toOption.map fun a =>
          ⟨sa.version, sa.notesUrl, a,
            if sa.minSupported.trim.isEmpty then false
            else versionGt R.libs sa.minSupported current, host.flavor⟩
    else none

/-- What a spec offers Studio on a platform: an asset of the first flavor there is one
of, if it has a signature. -/
def Spec.studioOffered (target arch current : Text) (spec : Spec) : Option StudioUpdate :=
  (spec.app "studio".toList).bind fun sa =>
    if versionGt R.libs sa.version current then
      ((studioFlavors (normalizeOs target)).findSome? fun flavor =>
          sa.selectAsset (normalizeOs target) arch (some flavor)).bind fun asset =>
        (run.platformAsset args R asset).toOption.bind fun a =>
          if a.signature.trim = [] then none
          else some ⟨sa.version, sa.notesUrl, a.url, a.signature⟩
    else none

end Spec

/-! ## What signing puts in a manifest -/

section Made

variable {run : SignRun} {args : SignArgs} {R : ReleaseReader}

/-- An asset has the digest and the size of the file that was built. -/
theorem platformAsset_eq_ok_iff {asset : SpecAsset} {a : PlatformAsset} :
    run.platformAsset args R asset = .ok a ↔ ∃ bytes url signature,
      run.built args asset = .ok bytes ∧ args.assetUrl asset = .ok url ∧
        run.loadSig args asset = .ok signature ∧
          a = ⟨asset.os, asset.arch, asset.flavor, asset.name, url,
            hexEncode (R.sha256 bytes), bytes.length, signature⟩ := by
  unfold SignRun.platformAsset
  simp only [bind_eq_ok_iff, context_eq_ok_iff]
  constructor
  · rintro ⟨bytes, hbytes, url, hurl, signature, hsignature, h⟩
    exact ⟨bytes, url, signature, hbytes, hurl, hsignature, (Except.ok.inj h).symm⟩
  · rintro ⟨bytes, url, signature, hbytes, hurl, hsignature, rfl⟩
    exact ⟨bytes, hbytes, url, hurl, signature, hsignature, rfl⟩

theorem appRelease_eq_ok_iff {sa : SpecApp} {r : AppRelease} :
    run.appRelease args R sa = .ok r ↔ ∃ assets,
      List.Forall₂ (fun asset a => run.platformAsset args R asset = .ok a) sa.assets assets ∧
        r = ⟨sa.app, sa.version, sa.minSupported, sa.notesUrl, assets⟩ := by
  unfold SignRun.appRelease
  simp only [bind_eq_ok_iff, mapM_eq_ok_iff]
  constructor
  · rintro ⟨assets, hassets, h⟩
    exact ⟨assets, hassets, (Except.ok.inj h).symm⟩
  · rintro ⟨assets, hassets, rfl⟩
    exact ⟨assets, hassets, rfl⟩

variable {json : Bytes} {spec : Spec} {k : KeyPair} {apps : List AppRelease}

/-- A saturated number fits. -/
theorem isInstant_saturate (i : ℤ) : IsInstant (saturate i) := by
  unfold saturate
  exact ⟨le_max_left _ _, max_lt (by decide) (lt_of_le_of_lt (min_le_left _ _) (by decide))⟩

/-- What is signed fits where it is read. -/
theorem SignRun.Made.fits (h : run.Made args R json spec k apps) :
    ((run.manifest args spec apps).sign R k).Fits := by
  have hfits : (run.manifest args spec apps).Fits := by
    refine ⟨show RELEASE_MANIFEST_SCHEMA < 2 ^ 32 by decide, run.now_fits,
      isInstant_saturate _, fun r hr a ha => ?_⟩
    obtain ⟨sa, -, hsa⟩ := forall₂_mem_right h.releases hr
    obtain ⟨assets, hassets, rfl⟩ := appRelease_eq_ok_iff.mp hsa
    obtain ⟨asset, -, hasset⟩ := forall₂_mem_right hassets ha
    obtain ⟨bytes, url, signature, hbytes, -, -, rfl⟩ := platformAsset_eq_ok_iff.mp hasset
    exact lt_trans (run.read_lt _ _ hbytes) (by decide)
  exact hfits.withSignatures _

/-- What is printed of a manifest is read as the document it is. -/
def PrintsReleases (R : ReleaseReader) (pretty : Json.Tree → Bytes) : Prop :=
  ∀ m : ReleaseManifest, m.Fits →
    R.parse (pretty (ReleaseManifest.codec.encode m)) = .ok (ReleaseManifest.codec.encode m)

theorem fromJson_pretty {pretty : Json.Tree → Bytes} (hprints : PrintsReleases R pretty)
    {m : ReleaseManifest} (hfits : m.Fits) :
    R.libs.fromJson (pretty (ReleaseManifest.codec.encode m)) = .ok m :=
  ReleaseManifest.fromJson_of_decode (hprints m hfits)
    (ReleaseManifest.decode_of_isDocument (ReleaseManifest.isDocument_encode hfits))

theorem fits_empty : ReleaseManifest.empty.Fits :=
  ⟨by decide, by decide, by decide, fun _ hr => absurd hr List.not_mem_nil⟩

/-! ## Trust -/

/-- A trust set has a key, in whichever spelling the set gives it. -/
def Trusts (R : ReleaseReader) (k : KeyPair) (trust : List Text) : Prop :=
  ∃ t ∈ trust, normKey t = k.publicHex R.scheme

/-- **A manifest that one key signed is trusted exactly by those who trust the key.** -/
theorem isSignedByTrusted_sign_iff (hS : R.scheme.Correct) {m : ReleaseManifest}
    (hnone : m.signatures = []) {trust : List Text} :
    (m.sign R k).isSignedByTrusted R.libs trust = true ↔ Trusts R k trust := by
  refine ⟨fun h => ?_, fun h => ReleaseManifest.isSignedByTrusted_sign hS h m⟩
  obtain ⟨sig, hsig, htrusted⟩ := List.any_eq_true.mp h
  unfold ReleaseManifest.sign at hsig
  dsimp only at hsig
  rw [hnone] at hsig
  obtain rfl := List.mem_singleton.mp hsig
  unfold signatureIsTrusted at htrusted
  split at htrusted
  · cases htrusted
  · dsimp only at htrusted
    split at htrusted
    · cases htrusted
    · rename_i hany
      rw [Bool.not_eq_true, Bool.not_eq_false'] at hany
      obtain ⟨t, ht, hnorm⟩ := List.any_eq_true.mp hany
      exact ⟨t, ht, (of_decide_eq_true hnorm).trans (ReleaseManifest.normKey_keyId R.scheme k)⟩

/-- A registry that is started with a manifest that a key signed serves it. -/
def RegistryServes (R : ReleaseReader) (k : KeyPair) (trust : List Text)
    (allowUntrusted : Bool) : Prop :=
  trust = [] ∧ allowUntrusted = true ∨ Trusts R k trust

theorem loadReleaseManifest_of_read {bytes : Bytes} {m : ReleaseManifest}
    (h : R.libs.fromJson bytes = .ok m) (trust : List Text) (allowUntrusted : Bool) :
    loadReleaseManifest R (some bytes) trust allowUntrusted =
      if trust = [] then if allowUntrusted then m else .empty
      else if m.isSignedByTrusted R.libs trust then m else .empty := by
  unfold loadReleaseManifest
  dsimp only
  rw [h]

/-- **What the registry serves** of what was signed: it, or nothing. -/
theorem SignRun.Made.load (hS : R.scheme.Correct) (hprints : PrintsReleases R run.pretty)
    (h : run.Made args R json spec k apps) (trust : List Text) (allowUntrusted : Bool) :
    (RegistryServes R k trust allowUntrusted →
      loadReleaseManifest R (some json) trust allowUntrusted =
        (run.manifest args spec apps).sign R k) ∧
    (¬ RegistryServes R k trust allowUntrusted →
      loadReleaseManifest R (some json) trust allowUntrusted = .empty) := by
  have htrusts : ((run.manifest args spec apps).sign R k).isSignedByTrusted R.libs trust = true ↔
      Trusts R k trust := isSignedByTrusted_sign_iff hS rfl
  rw [h.prints, loadReleaseManifest_of_read (fromJson_pretty hprints h.fits)]
  unfold RegistryServes
  by_cases hnil : trust = []
  · have hno : ¬ Trusts R k trust := by
      rintro ⟨t, ht, -⟩
      exact absurd (hnil ▸ ht) List.not_mem_nil
    rw [if_pos hnil]
    refine ⟨fun hserves => if_pos (hserves.resolve_right hno).2, fun hserves => if_neg ?_⟩
    exact fun hallow => hserves (Or.inl ⟨hnil, hallow⟩)
  · rw [if_neg hnil]
    refine ⟨fun hserves => if_pos ?_, fun hserves => if_neg ?_⟩
    · exact htrusts.mpr (hserves.resolve_left fun hleft => hnil hleft.1)
    · exact fun hsigned => hserves (Or.inr (htrusts.mp hsigned))

/-! ## What a copy is offered -/

/-- Two searches that find things that belong together, or nothing; this relates what the
source finds by two walks over corresponding lists. -/
def Matched {α β : Type} (r : α → β → Prop) (o : Option α) (o' : Option β) : Prop :=
  o = none ∧ o' = none ∨ ∃ a b, o = some a ∧ o' = some b ∧ r a b

/-- The first of some things that is looked for, and the first of what was made of them. -/
theorem matched_find? {α β : Type} {r : α → β → Prop} {p : α → Bool} {q : β → Bool}
    (hpq : ∀ a b, r a b → p a = q b) {as : List α} {bs : List β} (h : List.Forall₂ r as bs) :
    Matched r (as.find? p) (bs.find? q) := by
  induction h with
  | nil => exact Or.inl ⟨rfl, rfl⟩
  | @cons a b as bs hhead _ ih =>
    rw [List.find?_cons, List.find?_cons, ← hpq a b hhead]
    cases p a with
    | true => exact Or.inr ⟨a, b, rfl, rfl, hhead⟩
    | false => exact ih

theorem matched_findSome? {ι α β : Type} {r : α → β → Prop} {f : ι → Option α}
    {g : ι → Option β} (h : ∀ i, Matched r (f i) (g i)) (is : List ι) :
    Matched r (is.findSome? f) (is.findSome? g) := by
  induction is with
  | nil => exact Or.inl ⟨rfl, rfl⟩
  | cons i is ih =>
    rw [List.findSome?_cons, List.findSome?_cons]
    obtain ⟨hf, hg⟩ | ⟨a, b, hf, hg, hr⟩ := h i
    · rw [hf, hg]
      exact ih
    · rw [hf, hg]
      exact Or.inr ⟨a, b, rfl, rfl, hr⟩

/-- The releases of a manifest are those of the spec. -/
theorem SignRun.Made.matched_app (h : run.Made args R json spec k apps) (name : Text) :
    Matched (fun sa r => run.appRelease args R sa = .ok r) (spec.app name)
      (((run.manifest args spec apps).sign R k).app name) := by
  refine matched_find? (fun sa r hr => ?_) h.releases
  obtain ⟨assets, -, rfl⟩ := appRelease_eq_ok_iff.mp hr
  rfl

/-- And so are their assets. -/
theorem matched_selectAsset {sa : SpecApp} {r : AppRelease}
    (h : run.appRelease args R sa = .ok r) (os arch : Text) (flavor : Option Text) :
    Matched (fun asset a => run.platformAsset args R asset = .ok a)
      (sa.selectAsset os arch flavor) (r.selectAsset os arch flavor) := by
  obtain ⟨assets, hassets, rfl⟩ := appRelease_eq_ok_iff.mp h
  refine matched_find? (fun asset a ha => ?_) hassets
  obtain ⟨bytes, url, signature, -, -, -, rfl⟩ := platformAsset_eq_ok_iff.mp ha
  rfl

/-- **A copy that trusts the signing key is offered what the spec offers**, and one that
does not is offered nothing. -/
theorem SignRun.Made.offeredUpdate (hS : R.scheme.Correct)
    (h : run.Made args R json spec k apps) (host : Host) (now : ℤ) (current : Text)
    (trusted : List Text) :
    (Trusts R k trusted → offeredUpdate R.libs host now current trusted
        ((run.manifest args spec apps).sign R k) = spec.offered run args R host now current) ∧
      (¬ Trusts R k trusted → Atlas.offeredUpdate R.libs host now current trusted
        ((run.manifest args spec apps).sign R k) = none) := by
  have htrusts : ((run.manifest args spec apps).sign R k).isSignedByTrusted R.libs trusted =
      true ↔ Trusts R k trusted := isSignedByTrusted_sign_iff hS rfl
  constructor
  · intro htrusted
    have hexpired : ((run.manifest args spec apps).sign R k).isExpired now =
        decide (EXPIRY_SKEW_MS < saturatingSub now (expiresAt run.now args.expiresDays)) := rfl
    unfold Atlas.offeredUpdate Spec.offered
    rw [htrusts.mpr htrusted, hexpired]
    -- expiry, then the app, then its version, then the asset for the platform: the order in which
    -- the code asks
    by_cases hstale : EXPIRY_SKEW_MS < saturatingSub now (expiresAt run.now args.expiresDays)
    · rw [decide_eq_true hstale, if_pos hstale]
      rfl
    · rw [decide_eq_false hstale, if_neg hstale]
      obtain ⟨hsa, hr⟩ | ⟨sa, r, hsa, hr, hmade⟩ := h.matched_app "atlas".toList
      · rw [hsa, hr]
        rfl
      · have hselect := matched_selectAsset hmade host.os host.arch host.flavor.assetFlavor
        obtain ⟨assets, -, rfl⟩ := appRelease_eq_ok_iff.mp hmade
        have hnewer : AppRelease.isNewerThan R.libs
            ⟨sa.app, sa.version, sa.minSupported, sa.notesUrl, assets⟩ current =
              versionGt R.libs sa.version current := rfl
        rw [hsa, hr, Option.bind_some]
        dsimp only
        rw [hnewer]
        cases versionGt R.libs sa.version current with
        | false => rfl
        | true =>
          obtain ⟨hasset, ha⟩ | ⟨asset, a, hasset, ha, hmade⟩ := hselect
          · rw [hasset, ha]
            rfl
          · rw [hasset, ha, if_pos rfl, Option.bind_some, hmade]
            rfl
  · intro huntrusted
    unfold Atlas.offeredUpdate
    rw [Bool.eq_false_iff.mpr fun hsigned => huntrusted (htrusts.mp hsigned)]
    rfl

/-- **Studio is offered what the spec offers it**, by a registry that serves the release. -/
theorem SignRun.Made.studioUpdate (h : run.Made args R json spec k apps)
    (target arch current : Text) :
    studioUpdate R ((run.manifest args spec apps).sign R k) target arch current =
      spec.studioOffered run args R target arch current := by
  unfold Atlas.studioUpdate Spec.studioOffered
  obtain ⟨hsa, hr⟩ | ⟨sa, r, hsa, hr, hmade⟩ := h.matched_app "studio".toList
  · rw [hsa, hr]
    rfl
  · have hselect := matched_findSome? (fun flavor =>
      matched_selectAsset hmade (normalizeOs target) arch (some flavor))
      (studioFlavors (normalizeOs target))
    obtain ⟨assets, -, rfl⟩ := appRelease_eq_ok_iff.mp hmade
    have hnewer : AppRelease.isNewerThan R.libs
        ⟨sa.app, sa.version, sa.minSupported, sa.notesUrl, assets⟩ current =
          versionGt R.libs sa.version current := rfl
    rw [hsa, hr, Option.bind_some]
    dsimp only
    rw [hnewer]
    cases versionGt R.libs sa.version current with
    | false => rfl
    | true =>
      obtain ⟨hasset, ha⟩ | ⟨asset, a, hasset, ha, hmade⟩ := hselect
      · rw [hasset, ha]
        rfl
      · rw [hasset, ha, if_pos rfl, Option.bind_some, hmade]
        rfl

/-! ## The answer on its way -/

/-- A network delivers an answer to who asks for an address, in pieces. -/
structure Network.Delivers (net : Network) (url : Text) (answer : HttpAnswer) : Prop where
  client : net.httpClient = .ok ()
  answers : ∃ resp, net.send url = .ok resp ∧ resp.status = answer.status ∧
    resp.body.broken = none ∧ resp.body.chunks.flatten = answer.body

theorem collectChunks_eq_ok {chunks : List Bytes} {buf : Bytes}
    (h : buf.length + chunks.flatten.length ≤ MAX_MANIFEST) :
    collectChunks buf chunks = .ok (buf ++ chunks.flatten) := by
  induction chunks generalizing buf with
  | nil => rw [collectChunks, List.flatten_nil, List.append_nil]
  | cons chunk chunks ih =>
    rw [List.flatten_cons, List.length_append, ← Nat.add_assoc] at h
    rw [collectChunks, if_neg (not_lt.mpr (le_trans (Nat.le_add_right _ _) h)),
      ih (by rwa [List.length_append]), List.flatten_cons, List.append_assoc]

theorem Network.Delivers.fetchManifest {net : Network} {url : Text} {answer : HttpAnswer}
    (h : net.Delivers url answer) (hstatus : answer.status = 200)
    (hlength : answer.body.length ≤ MAX_MANIFEST) :
    fetchManifest net url = .ok answer.body := by
  obtain ⟨resp, hsend, hsame, hbroken, hbody⟩ := h.answers
  have hsuccess : resp.isSuccess = true := by
    unfold Response.isSuccess
    rw [hsame, hstatus]
    rfl
  unfold Atlas.fetchManifest
  rw [h.client, hsend]
  dsimp only [bind, Except.bind]
  rw [hsuccess, collectChunks_eq_ok (by rwa [List.length_nil, Nat.zero_add, hbody]), hbroken,
    hbody]
  rfl

/-- **A release reaches the copies**: what was signed from a spec is offered to a copy that
asks a registry for it, as the spec has it for the copy's platform, exactly if the registry
serves it and the copy trusts the signing key. Whatever the registry was told to trust, a
copy that does not trust the key is offered nothing. -/
theorem release_reaches_copies (hS : R.scheme.Correct) (hprints : PrintsReleases R run.pretty)
    (hsign : run.sign args R = .ok json) :
    ∃ spec k, run.readSpec args R = .ok spec ∧
      (∃ secret, run.readSecret args = .ok secret ∧
        KeyPair.fromSecretHex run.hexError secret = .ok k) ∧
      ∀ (trust : List Text) (allowUntrusted : Bool) (net : Network) (host : Host) (now : ℤ)
        (trackerUrl current : Text) (trusted : List Text),
        let answer := updateLatest R run.pretty
          (loadReleaseManifest R (some json) trust allowUntrusted) none
        net.Delivers (trimEndMatches "/".toList trackerUrl ++ "/update/latest".toList) answer →
        answer.body.length ≤ MAX_MANIFEST →
          (RegistryServes R k trust allowUntrusted ∧ Trusts R k trusted →
            checkWithTrust R.libs net host now trackerUrl current trusted =
              .ok (spec.offered run args R host now current)) ∧
          (¬ (RegistryServes R k trust allowUntrusted ∧ Trusts R k trusted) →
            checkWithTrust R.libs net host now trackerUrl current trusted = .ok none) := by
  obtain ⟨spec, k, apps, h⟩ := SignRun.sign_eq_ok_iff.mp hsign
  refine ⟨spec, k, h.readsSpec, h.readsKey, ?_⟩
  intro trust allowUntrusted net host now trackerUrl current trusted answer hdelivers hlength
  obtain ⟨hserved, hunserved⟩ := h.load hS hprints trust allowUntrusted
  obtain ⟨hoffered, hunoffered⟩ := h.offeredUpdate hS host now current trusted
  have hcheck : ∀ m : ReleaseManifest, m.Fits →
      loadReleaseManifest R (some json) trust allowUntrusted = m →
        checkWithTrust R.libs net host now trackerUrl current trusted =
          .ok (offeredUpdate R.libs host now current trusted m) := by
    rintro m hfits rfl
    unfold checkWithTrust
    rw [hdelivers.fetchManifest rfl hlength]
    have hread : R.libs.fromJson answer.body =
        .ok (loadReleaseManifest R (some json) trust allowUntrusted) :=
      fromJson_pretty hprints hfits
    dsimp only [bind, Except.bind]
    rw [hread]
  constructor
  · rintro ⟨hserves, htrusts⟩
    rw [hcheck _ h.fits (hserved hserves), hoffered htrusts]
  · intro hnot
    by_cases hserves : RegistryServes R k trust allowUntrusted
    · rw [hcheck _ h.fits (hserved hserves), hunoffered fun htrusts => hnot ⟨hserves, htrusts⟩]
    · rw [hcheck _ fits_empty (hunserved hserves)]
      rfl

end Made

/-! ## The download -/

section Staged

open Program

variable {L : UpdateLibs} {run : AssetRun} {asset : PlatformAsset}

/-- Nothing goes wrong while an asset is downloaded: no call of the operating system fails. -/
structure AssetRun.Smooth (run : AssetRun) : Prop where
  createDir : run.createDir = none
  createTmp : run.createTmp = none
  writeAll : ∀ i, run.writeAll i = none
  flush : run.flush = none
  rename : run.rename = none

theorem writeChunks_fits (hrun : run.Smooth) {tmp : Text} {chunks : List Bytes} (i : ℕ)
    {hashed : Bytes} {s : Staging} (hs : s.files tmp = some hashed)
    (h : hashed.length + chunks.flatten.length ≤ asset.maxBytes) :
    ∃ s', writeChunks run asset tmp i hashed chunks s = (.ok (hashed ++ chunks.flatten), s') ∧
      s'.files tmp = some (hashed ++ chunks.flatten) := by
  induction chunks generalizing i hashed s with
  | nil =>
    rw [List.flatten_nil, List.append_nil]
    exact ⟨s, rfl, hs⟩
  | cons chunk chunks ih =>
    rw [List.flatten_cons, List.length_append, ← Nat.add_assoc] at h
    rw [List.flatten_cons, ← List.append_assoc]
    obtain ⟨s', heq, hs'⟩ := ih (i + 1) (s.write_self tmp (some (hashed ++ chunk)))
      (by rwa [List.length_append])
    refine ⟨s', ?_, hs'⟩
    rw [writeChunks, if_neg (not_lt.mpr (le_trans (Nat.le_add_right _ _) h)), hrun.writeAll]
    exact heq

theorem writeChunks_exceeds (hrun : run.Smooth) {tmp : Text} {chunks : List Bytes} (i : ℕ)
    {hashed : Bytes} (s : Staging) (hfirst : hashed.length ≤ asset.maxBytes)
    (h : asset.maxBytes < hashed.length + chunks.flatten.length) :
    ∃ e s', writeChunks run asset tmp i hashed chunks s = (.err e, s') := by
  induction chunks generalizing i hashed s with
  | nil =>
    rw [List.flatten_nil, List.length_nil, Nat.add_zero] at h
    exact absurd h (not_lt.mpr hfirst)
  | cons chunk chunks ih =>
    rw [List.flatten_cons, List.length_append, ← Nat.add_assoc] at h
    by_cases hchunk : asset.maxBytes < hashed.length + chunk.length
    · rw [writeChunks, if_pos hchunk]
      exact ⟨_, _, rfl⟩
    · have hlength : (hashed ++ chunk).length = hashed.length + chunk.length :=
        List.length_append
      obtain ⟨e, s', heq⟩ := ih (i + 1) (s.write tmp (some (hashed ++ chunk)))
        (by rw [hlength]; exact not_lt.mp hchunk) (by rwa [hlength])
      refine ⟨e, s', ?_⟩
      rw [writeChunks, if_neg hchunk, hrun.writeAll]
      exact heq

/-- A body that arrives whole is taken exactly if it is not too long and has the digest. -/
theorem streamAsset_whole (hrun : run.Smooth) (asset : PlatformAsset) (tmp : Text) {body : Body}
    (hbroken : body.broken = none) (s : Staging) :
    (body.chunks.flatten.length ≤ asset.maxBytes ∧ asset.Names L body.chunks.flatten →
      ∃ s', streamAsset L run asset tmp body s = (.ok (), s') ∧
        s'.files tmp = some body.chunks.flatten) ∧
    (¬ (body.chunks.flatten.length ≤ asset.maxBytes ∧ asset.Names L body.chunks.flatten) →
      ∃ e s', streamAsset L run asset tmp body s = (.err e, s')) := by
  have hstart : streamAsset L run asset tmp body s =
      andThen (fun hashed : Bytes => do
          attempt (body.broken.map ("download: ".toList ++ ·))
          attempt run.flush
          let got := hexEncode (L.sha256 hashed)
          if !eqIgnoreAsciiCase got asset.sha256.trim then
            throw ("integrity check failed: expected ".toList ++ asset.sha256 ++
              ", got ".toList ++ got ++ " — refusing to apply".toList)
          else pure ())
        (writeChunks run asset tmp 0 [] body.chunks (s.write tmp (some []))) := by
    unfold streamAsset
    rw [hrun.createTmp]
    rfl
  rw [hstart]
  by_cases hfits : body.chunks.flatten.length ≤ asset.maxBytes
  · have hall : ([] : Bytes).length + body.chunks.flatten.length ≤ asset.maxBytes := by
      rwa [List.length_nil, Nat.zero_add]
    obtain ⟨s', heq, hs'⟩ := writeChunks_fits hrun 0 (s.write_self tmp (some [])) hall
    rw [heq, andThen_ok, List.nil_append, hbroken, hrun.flush]
    -- the digest is compared without regard to case, against the descriptor's text trimmed
    have hrest : ∀ b : Bool, eqIgnoreAsciiCase (hexEncode (L.sha256 body.chunks.flatten))
        asset.sha256.trim = b → (do
          attempt ((none : Option Text).map ("download: ".toList ++ ·))
          attempt none
          let got := hexEncode (L.sha256 body.chunks.flatten)
          if !eqIgnoreAsciiCase got asset.sha256.trim then
            throw ("integrity check failed: expected ".toList ++ asset.sha256 ++
              ", got ".toList ++ got ++ " — refusing to apply".toList)
          else pure () : Program Staging Text Unit) s' =
        if b then (.ok (), s') else (.err ("integrity check failed: expected ".toList ++
          asset.sha256 ++ ", got ".toList ++ hexEncode (L.sha256 body.chunks.flatten) ++
            " — refusing to apply".toList), s') := by
      intro b hb
      show (if (!eqIgnoreAsciiCase (hexEncode (L.sha256 body.chunks.flatten))
        asset.sha256.trim) = true then throw _ else pure () : Program Staging Text Unit) s' = _
      rw [hb]
      cases b with
      | true => rfl
      | false => rfl
    by_cases hnames : asset.Names L body.chunks.flatten
    · rw [hrest true hnames, if_pos rfl]
      exact ⟨fun _ => ⟨s', rfl, hs'⟩, fun hnot => absurd ⟨hfits, hnames⟩ hnot⟩
    · rw [hrest false (Bool.eq_false_iff.mpr hnames), if_neg Bool.false_ne_true]
      exact ⟨fun h => absurd h.2 hnames, fun _ => ⟨_, s', rfl⟩⟩
  -- the body is longer than the descriptor allows: the running total passes the bound at some
  -- chunk, and the stream stops there
  · have hover : asset.maxBytes < ([] : Bytes).length + body.chunks.flatten.length := by
      rw [List.length_nil, Nat.zero_add]
      exact not_le.mp hfits
    have hexceeds : ∃ e s', writeChunks run asset tmp 0 [] body.chunks
        (s.write tmp (some [])) = (.err e, s') :=
      writeChunks_exceeds hrun 0 _ (Nat.zero_le _) hover
    obtain ⟨e, s', heq⟩ := hexceeds
    rw [heq, andThen_err]
    exact ⟨fun h => absurd h.1 hfits, fun _ => ⟨e, s', rfl⟩⟩

/-- **A download of a body that arrives whole** stages it exactly if it is not too long and
has the digest the asset names. -/
theorem downloadVerified_whole (hrun : run.Smooth) {net : Network} {answer : HttpAnswer}
    (hdelivers : net.Delivers asset.url answer) (hstatus : answer.status = 200) {name : Text}
    (hname : run.fileName asset.name = some name) (hplain : name ≠ []) (s : Staging) :
    (answer.body.length ≤ asset.maxBytes ∧ asset.Names L answer.body →
      ∃ s', downloadVerified L net run asset s = (.ok name, s') ∧
        s'.files name = some answer.body) ∧
    (¬ (answer.body.length ≤ asset.maxBytes ∧ asset.Names L answer.body) →
      ∃ e s', downloadVerified L net run asset s = (.err e, s')) := by
  obtain ⟨resp, hsend, hsame, hbroken, hbody⟩ := hdelivers.answers
  have hsuccess : resp.isSuccess = true := by
    unfold Response.isSuccess
    rw [hsame, hstatus]
    rfl
  have hfile : (run.fileName asset.name).filter (· ≠ []) = some name := by
    rw [hname]
    exact Option.filter_eq_some_iff.mpr ⟨rfl, decide_eq_true hplain⟩
  obtain ⟨htaken, hrefused⟩ := streamAsset_whole (L := L) hrun asset
    (name ++ ".part".toList) hbroken s
  rw [hbody] at htaken hrefused
  -- the answer is accepted and names a file, so all that is left is the stream into the `.part`
  -- file and what follows it
  have hstart : ∃ f : Except Text Unit → Program Staging Text Text,
      downloadVerified L net run asset s =
        andThen f (result (streamAsset L run asset (name ++ ".part".toList) resp.body) s) ∧
      (f (.ok ()) = attempt run.rename >>= fun _ =>
        modify (fun s => (s.write name (s.files (name ++ ".part".toList))).write
          (name ++ ".part".toList) none) >>= fun _ => pure name) ∧
      ∀ e, f (.error e) = (whenever run.removes
        (modify fun s => s.write (name ++ ".part".toList) none) >>= fun _ => throw e) := by
    unfold downloadVerified
    rw [hdelivers.client, hsend]
    dsimp only
    rw [hsuccess, hfile, hrun.createDir]
    exact ⟨_, rfl, rfl, fun _ => rfl⟩
  obtain ⟨f, hstart, hok, herror⟩ := hstart
  rw [hstart]
  constructor
  · intro h
    obtain ⟨s', heq, hs'⟩ := htaken h
    have hresult : result (streamAsset L run asset (name ++ ".part".toList) resp.body) s =
        (.ok (.ok ()), s') := by
      unfold result
      rw [heq]
    rw [hresult, andThen_ok, hok, hrun.rename]
    refine ⟨_, rfl, ?_⟩
    have htmp : name ≠ name ++ ".part".toList := fun heq =>
      absurd (congrArg List.length heq) (by simp)
    show ((s'.write name (s'.files (name ++ ".part".toList))).write
      (name ++ ".part".toList) none).files name = _
    rw [Staging.write_of_ne _ _ htmp, Staging.write_self, hs']
  · intro h
    obtain ⟨e, s', heq⟩ := hrefused h
    have hresult : result (streamAsset L run asset (name ++ ".part".toList) resp.body) s =
        (.ok (.error e), s') := by
      unfold result
      rw [heq]
    rw [hresult, andThen_ok, herror]
    -- the partial is removed on a best effort; either way the error is the stream's
    by_cases hremoves : run.removes = true
    · rw [whenever_true hremoves]
      exact ⟨e, _, rfl⟩
    · rw [whenever_false hremoves]
      exact ⟨e, _, rfl⟩

end Staged

/-! ## What was built is what is staged -/

section Built

variable {run : SignRun} {args : SignArgs} {R : ReleaseReader} {spec : Spec} {host : Host}
  {now : ℤ} {current : Text} {info : UpdateInfo}

theorem eq_ok_of_toOption {ε α : Type} {x : Except ε α} {a : α} (h : x.toOption = some a) :
    x = .ok a := by
  cases x with
  | error e => cases h
  | ok a' =>
    cases h
    rfl

/-- What is offered is an asset of the spec, with the digest and the size of the file that
was built. -/
theorem Spec.offered_built (h : spec.offered run args R host now current = some info) :
    ∃ sa asset bytes, spec.app "atlas".toList = some sa ∧
      sa.selectAsset host.os host.arch host.flavor.assetFlavor = some asset ∧
      run.built args asset = .ok bytes ∧ info.asset.name = asset.name ∧
      info.asset.sha256 = hexEncode (R.sha256 bytes) ∧ info.asset.size = bytes.length := by
  unfold Spec.offered at h
  split at h
  · cases h
  · obtain ⟨sa, hsa, h⟩ := Option.bind_eq_some_iff.mp h
    split at h
    · obtain ⟨asset, hasset, h⟩ := Option.bind_eq_some_iff.mp h
      obtain ⟨a, ha, rfl⟩ := Option.map_eq_some_iff.mp h
      obtain ⟨bytes, url, signature, hbytes, -, -, rfl⟩ :=
        platformAsset_eq_ok_iff.mp (eq_ok_of_toOption ha)
      exact ⟨sa, asset, bytes, hsa, hasset, hbytes, rfl, rfl, rfl⟩
    · cases h

/-- The file that was built is not too long. -/
theorem length_le_maxBytes {asset : PlatformAsset} {bytes : Bytes}
    (hlt : bytes.length < 2 ^ 63) (h : asset.size = bytes.length) :
    bytes.length ≤ asset.maxBytes := by
  unfold PlatformAsset.maxBytes
  rw [h]
  split
  · rw [Nat.mod_eq_of_lt (lt_of_lt_of_le (Nat.add_lt_add_right hlt 1024) (by decide))]
    exact Nat.le_add_right _ _
  · rename_i hzero
    rw [Nat.eq_zero_of_not_pos hzero]
    exact Nat.zero_le _

theorem names_iff {asset : PlatformAsset} {built bytes : Bytes}
    (h : asset.sha256 = hexEncode (R.sha256 built)) :
    asset.Names R.libs bytes ↔ R.sha256 bytes = R.sha256 built := by
  have hwhite : ∀ c ∈ hexEncode (R.sha256 built), isWhitespace c = false := fun c hc =>
    (ascii_of_hexdigit (List.all_eq_true.mp (all_isAsciiHexdigit_hexEncode _) c hc)).2
  unfold PlatformAsset.Names
  rw [h, trim_eq_self hwhite]
  exact hexEncode_eqIgnoreAsciiCase

/-- **What a copy stages is what was built.** Of an offer that a spec makes, a download
that nothing goes wrong with stages the bytes that arrived exactly if they have the digest
of the file that was built and are not too long; the file itself is staged. -/
theorem built_file_staged (h : spec.offered run args R host now current = some info) :
    ∃ sa asset bytes, spec.app "atlas".toList = some sa ∧
      sa.selectAsset host.os host.arch host.flavor.assetFlavor = some asset ∧
      run.built args asset = .ok bytes ∧
      ∀ (assetRun : AssetRun) (net : Network) (answer : HttpAnswer) (name : Text) (s : Staging),
        assetRun.Smooth → net.Delivers info.asset.url answer → answer.status = 200 →
        assetRun.fileName asset.name = some name → name ≠ [] →
          (answer.body.length ≤ info.asset.maxBytes ∧
              R.sha256 answer.body = R.sha256 bytes →
            ∃ s', downloadVerified R.libs net assetRun info.asset s = (.ok name, s') ∧
              s'.files name = some answer.body) ∧
          (¬ (answer.body.length ≤ info.asset.maxBytes ∧
              R.sha256 answer.body = R.sha256 bytes) →
            ∃ e s', downloadVerified R.libs net assetRun info.asset s = (.err e, s')) ∧
          (answer.body = bytes → answer.body.length ≤ info.asset.maxBytes ∧
            R.sha256 answer.body = R.sha256 bytes) := by
  obtain ⟨sa, asset, bytes, hsa, hasset, hbytes, hname, hdigest, hsize⟩ := Spec.offered_built h
  refine ⟨sa, asset, bytes, hsa, hasset, hbytes, ?_⟩
  intro assetRun net answer name s hsmooth hdelivers hstatus hfile hplain
  rw [← hname] at hfile
  obtain ⟨htaken, hrefused⟩ := downloadVerified_whole (L := R.libs) hsmooth hdelivers hstatus
    hfile hplain s
  rw [names_iff hdigest] at htaken hrefused
  refine ⟨htaken, hrefused, ?_⟩
  rintro rfl
  exact ⟨length_le_maxBytes (run.read_lt _ _ hbytes) hsize, rfl⟩

/-- **A release reaches Studio** from a registry that serves it, and none other does. -/
theorem release_reaches_studio (hS : R.scheme.Correct) (hprints : PrintsReleases R run.pretty)
    {json : Bytes} (hsign : run.sign args R = .ok json) :
    ∃ spec k, run.readSpec args R = .ok spec ∧
      (∃ secret, run.readSecret args = .ok secret ∧
        KeyPair.fromSecretHex run.hexError secret = .ok k) ∧
      ∀ (trust : List Text) (allowUntrusted : Bool) (target arch current : Text),
        (RegistryServes R k trust allowUntrusted → studioUpdate R
            (loadReleaseManifest R (some json) trust allowUntrusted) target arch current =
          spec.studioOffered run args R target arch current) ∧
        (¬ RegistryServes R k trust allowUntrusted → studioUpdate R
            (loadReleaseManifest R (some json) trust allowUntrusted) target arch current =
          none) := by
  obtain ⟨spec, k, apps, h⟩ := SignRun.sign_eq_ok_iff.mp hsign
  refine ⟨spec, k, h.readsSpec, h.readsKey, fun trust allowUntrusted target arch current => ?_⟩
  obtain ⟨hserved, hunserved⟩ := h.load hS hprints trust allowUntrusted
  refine ⟨fun hserves => ?_, fun hserves => ?_⟩
  · rw [hserved hserves]
    exact h.studioUpdate target arch current
  · rw [hunserved hserves]
    rfl

end Built

/-! ## A release -/

section Sample

/-- A portable archive of the program, and an AppImage of Studio; the second of them is the
one the update channel of Studio offers. -/
def archiveAsset : SpecAsset :=
  ⟨"linux".toList, "x86_64".toList, "tarball".toList, "atlas.tar.gz".toList, none, none⟩

/-- A build of the studio as an AppImage, the form its updater takes under Linux. -/
def appImageAsset : SpecAsset :=
  ⟨"linux".toList, "x86_64".toList, "appimage".toList, "studio.AppImage".toList, none, none⟩

/-- A release of one application, with one build. -/
def atlasApp : SpecApp := ⟨"atlas".toList, "0.2.0".toList, [], [], [archiveAsset]⟩

/-- A release of the other, with a build of its own. -/
def studioApp : SpecApp := ⟨"studio".toList, "0.2.0".toList, [], [], [appImageAsset]⟩

/-- A channel with a release of both, as its spec describes it. -/
def twoAppsSpec : Spec := ⟨"stable".toList, [atlasApp, studioApp]⟩

/-- The arguments with which that channel is signed, for a fortnight from now. -/
def twoAppsArgs : SignArgs where
  spec := "spec.json".toList
  assetsDir := "dist".toList
  out := "release-manifest.json".toList
  secret := none
  secretFile := none
  baseUrl := some "https://example.com/".toList
  expiresDays := 14

/-- The bytes of the file that tells what to sign, as a run of the signer reads them from disk. -/
def twoAppsSpecBytes : Bytes := (Spec.codec.encode twoAppsSpec).toVec

/-- Each built file has the bytes `abc`, and the spec is where the arguments say. -/
def twoAppsFiles (path : Text) : Except Text Bytes :=
  if path = "spec.json".toList then .ok twoAppsSpecBytes
  else if path ∈ ["dist/atlas.tar.gz".toList, "dist/studio.AppImage".toList] then .ok abc
  else .error "No such file or directory (os error 2)".toList

theorem length_twoAppsFiles (path : Text) (bytes : Bytes) (h : twoAppsFiles path = .ok bytes) :
    bytes.length < 2 ^ 63 := by
  unfold twoAppsFiles at h
  split at h
  · cases h
    decide +kernel
  · split at h
    · cases h
      decide
    · cases h

theorem isInstant_release : IsInstant 1700000000000 := by decide

/-- The file of Studio has a signature beside it, and the run has the key in its
environment. -/
def twoAppsRun : SignRun where
  read := twoAppsFiles
  readToString path :=
    if path = "dist/studio.AppImage.sig".toList then .ok "c2ln\n".toList
    else .error "No such file or directory (os error 2)".toList
  isPresent path := path = "dist/studio.AppImage.sig".toList
  write _ _ := .ok ()
  join dir name := dir ++ "/".toList ++ name
  secretVar := some (hexEncode firstSigner.secret)
  now := 1700000000000
  specShape _ := []
  hexError _ := []
  pretty doc := doc.toVec
  read_lt := length_twoAppsFiles
  now_fits := isInstant_release

/-- The release, before it is signed, with the digests and sizes of the built files in it. -/
def twoAppsManifest : ReleaseManifest where
  schema := 1
  channel := "stable".toList
  generatedAt := 1700000000000
  expiresAt := 1701209600000
  apps := [
    ⟨"atlas".toList, "0.2.0".toList, [], [], [⟨"linux".toList, "x86_64".toList,
      "tarball".toList, "atlas.tar.gz".toList, "https://example.com/atlas.tar.gz".toList,
      hexEncode (sampleDigests.sha256 abc), 3, []⟩]⟩,
    ⟨"studio".toList, "0.2.0".toList, [], [], [⟨"linux".toList, "x86_64".toList,
      "appimage".toList, "studio.AppImage".toList, "https://example.com/studio.AppImage".toList,
      hexEncode (sampleDigests.sha256 abc), 3, "c2ln".toList⟩]⟩]
  signatures := []

/-- The signer's signature over it, as the scheme would make it for this one message. -/
def twoAppsKnown : List KnownSecret := [
  { secret := firstSigner.secret
    key := signerKeys.getD 0 []
    message := ReleaseManifest.canonicalForm (ReleaseManifest.codec.encode twoAppsManifest)
    sig := ofNumber 64 0xcb5064f41220f5436243fb57a0ecea02691213984069922ff330f9e6f3bafe4a4139cd765dcaf0550f12c155b76e547ae2abaa8d584692bdf7f5b49a118b8a04
    value := ("y1Bk9BIg9UNiQ/tXoOzqAmkSE5hAaZIv8zD55vO6/kpBOc12XcrwVQ8SwVW3blR64quqjVhGkr33" ++
      "9bSaEYuKBA==").toList }]

open Classical in
/-- What reads every document that is printed compactly, and knows this signature. -/
noncomputable def compactReader : ReleaseReader where
  parse bytes := if h : ∃ doc : Json.Tree, doc.toVec = bytes then .ok h.choose else .error []
  shape _ := []
  scheme := .knowing twoAppsKnown
  Version := ℕ × ℕ × ℕ
  parseVersion := sampleLibs.parseVersion
  versionGt := sampleLibs.versionGt
  sha256 := sampleDigests.sha256

theorem parse_toVec (doc : Json.Tree) : compactReader.parse doc.toVec = .ok doc := by
  have h : ∃ doc' : Json.Tree, doc'.toVec = doc.toVec := ⟨doc, rfl⟩
  exact (dif_pos h).trans (congrArg Except.ok (toVec_injective h.choose_spec))

/-- What the run writes: the release with its signature, as a document. -/
def twoAppsJson : Bytes :=
  (ReleaseManifest.codec.encode
    { twoAppsManifest with signatures := [⟨firstSigner.keyId (.knowing twoAppsKnown),
      "ed25519".toList, (twoAppsKnown.map fun k => k.value).getD 0 []⟩] }).toVec

theorem readSecret_twoApps :
    twoAppsRun.readSecret twoAppsArgs = .ok (hexEncode firstSigner.secret) := by
  decide

theorem fromSecretHex_signer : KeyPair.fromSecretHex twoAppsRun.hexError
    (hexEncode firstSigner.secret) = .ok firstSigner := by
  decide

theorem made_twoApps : twoAppsRun.Made twoAppsArgs compactReader twoAppsJson twoAppsSpec
    firstSigner twoAppsManifest.apps where
  readsSpec := by
    refine bind_eq_ok_iff.mpr ⟨twoAppsSpecBytes, by decide +kernel, ?_⟩
    refine bind_eq_ok_iff.mpr ⟨_, context_eq_ok_iff.mpr (parse_toVec _), ?_⟩
    have hdecode : Spec.codec.decode (Spec.codec.encode twoAppsSpec) = some twoAppsSpec := by
      decide +kernel
    rw [hdecode]
    rfl
  readsKey := ⟨_, readSecret_twoApps, fromSecretHex_signer⟩
  releases := mapM_eq_ok_iff.mp (by decide +kernel)
  lives := by decide
  writes := rfl
  prints := by decide +kernel

theorem correct_compactReader : compactReader.scheme.Correct :=
  SigningScheme.knowing_correct (by decide)

theorem prints_twoApps : PrintsReleases compactReader twoAppsRun.pretty := fun _ _ => parse_toVec _

/-- The network through which a copy reaches the registry; it answers this one address and
no other. -/
def twoAppsNetwork (url : Text) (answer : HttpAnswer) : Network where
  httpClient := .ok ()
  send url' :=
    if url' = url then .ok ⟨answer.status, [], ⟨[answer.body], none⟩⟩
    else .error "not found".toList

theorem twoAppsNetwork_delivers (url : Text) (answer : HttpAnswer) :
    (twoAppsNetwork url answer).Delivers url answer :=
  ⟨rfl, ⟨_, if_pos rfl, rfl, rfl, List.append_nil _⟩⟩

/-- Who trusts the signer, by its public key in hexadecimal. -/
def signerTrust : List Text := [hexEncode (signerKeys.getD 0 [])]

theorem trusts_signer : Trusts compactReader firstSigner signerTrust :=
  ⟨_, List.mem_cons_self, by decide +kernel⟩

/-- What the registry answers, once it has loaded the file that the run wrote. -/
noncomputable def twoAppsAnswer : HttpAnswer :=
  updateLatest compactReader twoAppsRun.pretty
    (loadReleaseManifest compactReader (some twoAppsJson) signerTrust false) none

theorem body_twoAppsAnswer : twoAppsAnswer.body = twoAppsJson := by
  unfold twoAppsAnswer
  rw [(made_twoApps.load correct_compactReader prints_twoApps signerTrust false).1
    (Or.inr trusts_signer)]
  exact made_twoApps.prints.symm

/-- What a portable copy of version 0.1.0 is offered on Linux, which has the digest and the
size that the signer computed. -/
def twoAppsInfo : UpdateInfo where
  version := "0.2.0".toList
  notesUrl := []
  asset := ⟨"linux".toList, "x86_64".toList, "tarball".toList, "atlas.tar.gz".toList,
    "https://example.com/atlas.tar.gz".toList, hexEncode (sampleDigests.sha256 abc), 3, []⟩
  forced := false
  flavor := .linuxPortable

theorem twoAppsSpec_offered : twoAppsSpec.offered twoAppsRun twoAppsArgs compactReader
    sampleHost 1700000000001 "0.1.0".toList = some twoAppsInfo := by
  decide +kernel

/-- The copy is offered the archive, by a registry that was given the file. -/
theorem twoApps_reaches_copy : checkWithTrust compactReader.libs
    (twoAppsNetwork "https://example.com/update/latest".toList twoAppsAnswer) sampleHost
    1700000000001 "https://example.com/".toList "0.1.0".toList signerTrust =
      .ok (some twoAppsInfo) := by
  obtain ⟨spec, k, hspec, ⟨secret, hsecret, hk⟩, hall⟩ := release_reaches_copies
    correct_compactReader prints_twoApps (SignRun.sign_eq_ok_iff.mpr ⟨_, _, _, made_twoApps⟩)
  obtain rfl := Except.ok.inj (made_twoApps.readsSpec.symm.trans hspec)
  obtain rfl := Except.ok.inj (readSecret_twoApps.symm.trans hsecret)
  obtain rfl := Except.ok.inj (fromSecretHex_signer.symm.trans hk)
  have hdelivers : (twoAppsNetwork "https://example.com/update/latest".toList
      twoAppsAnswer).Delivers (trimEndMatches "/".toList "https://example.com/".toList ++
        "/update/latest".toList) twoAppsAnswer := by
    have hurl : trimEndMatches "/".toList "https://example.com/".toList ++
        "/update/latest".toList = "https://example.com/update/latest".toList := by
      decide +kernel
    rw [hurl]
    exact twoAppsNetwork_delivers _ _
  have hlength : twoAppsAnswer.body.length ≤ MAX_MANIFEST := by
    rw [body_twoAppsAnswer]
    decide +kernel
  have hcheck := (hall signerTrust false _ sampleHost 1700000000001 "https://example.com/".toList
    "0.1.0".toList signerTrust hdelivers hlength).1 ⟨Or.inr trusts_signer, trusts_signer⟩
  rw [twoAppsSpec_offered] at hcheck
  exact hcheck

/-- A download that nothing goes wrong with, and that saves a file under its own name. -/
def smoothRun : AssetRun where
  fileName path := some path
  createDir := none
  createTmp := none
  writeAll _ := none
  flush := none
  rename := none
  removes := true

/-- The copy stages the archive that was built, and nothing else under its digest. -/
theorem twoApps_staged :
    (∃ s', downloadVerified compactReader.libs
        (twoAppsNetwork "https://example.com/atlas.tar.gz".toList ⟨200, [], abc⟩) smoothRun
        twoAppsInfo.asset ⟨fun _ => none, []⟩ = (.ok "atlas.tar.gz".toList, s') ∧
      s'.files "atlas.tar.gz".toList = some abc) ∧
    ∃ e s', downloadVerified compactReader.libs
        (twoAppsNetwork "https://example.com/atlas.tar.gz".toList ⟨200, [], []⟩) smoothRun
        twoAppsInfo.asset ⟨fun _ => none, []⟩ = (.err e, s') := by
  obtain ⟨sa, asset, bytes, hsa, hasset, hbytes, hall⟩ := built_file_staged twoAppsSpec_offered
  have happ : twoAppsSpec.app "atlas".toList = some atlasApp := by decide
  obtain rfl := Option.some.inj (happ.symm.trans hsa)
  have hselected : atlasApp.selectAsset sampleHost.os sampleHost.arch
      sampleHost.flavor.assetFlavor = some archiveAsset := by
    decide
  obtain rfl := Option.some.inj (hselected.symm.trans hasset)
  have hbuilt : twoAppsRun.built twoAppsArgs archiveAsset = .ok abc := by decide
  obtain rfl := Except.ok.inj (hbuilt.symm.trans hbytes)
  have hsmooth : smoothRun.Smooth := ⟨rfl, rfl, fun _ => rfl, rfl, rfl⟩
  have hplain : archiveAsset.name ≠ [] := by decide
  obtain ⟨htaken, -, hsame⟩ := hall smoothRun _ ⟨200, [], abc⟩ _ ⟨fun _ => none, []⟩ hsmooth
    (twoAppsNetwork_delivers _ _) rfl rfl hplain
  obtain ⟨-, hrefused, -⟩ := hall smoothRun _ ⟨200, [], []⟩ _ ⟨fun _ => none, []⟩ hsmooth
    (twoAppsNetwork_delivers _ _) rfl rfl hplain
  have hother : sampleDigests.sha256 [] ≠ sampleDigests.sha256 abc := by decide
  exact ⟨htaken (hsame rfl), hrefused fun h => hother h.2⟩

/-- Studio is offered its AppImage. -/
theorem twoApps_reaches_studio : studioUpdate compactReader
    (loadReleaseManifest compactReader (some twoAppsJson) signerTrust false) "linux".toList
    "x86_64".toList "0.1.0".toList = some ⟨"0.2.0".toList, [],
      "https://example.com/studio.AppImage".toList, "c2ln".toList⟩ := by
  obtain ⟨spec, k, hspec, ⟨secret, hsecret, hk⟩, hall⟩ := release_reaches_studio
    correct_compactReader prints_twoApps (SignRun.sign_eq_ok_iff.mpr ⟨_, _, _, made_twoApps⟩)
  obtain rfl := Except.ok.inj (made_twoApps.readsSpec.symm.trans hspec)
  obtain rfl := Except.ok.inj (readSecret_twoApps.symm.trans hsecret)
  obtain rfl := Except.ok.inj (fromSecretHex_signer.symm.trans hk)
  rw [(hall signerTrust false _ _ _).1 (Or.inr trusts_signer)]
  decide +kernel

end Sample

end Atlas
