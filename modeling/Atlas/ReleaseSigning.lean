import Atlas.ReleaseDocument
import Atlas.UpdateChain

/-!
# Signing a release

`noema update sign` makes a release manifest out of a spec, which says what is released for
whom, and the directory with the built files, and signs it. What it does of its own is
here: where the signing key comes from, the digest and the size of each file, the address
it will be downloaded from, the detached signature that lies beside it, and how long the
manifest is good for. What it writes is the manifest as a JSON document.

The disk and the environment of a run are a `SignRun`; so is the clock.
-/

open Text Json

namespace Atlas

/-! ## The spec -/

/-- A file of a release, without its digest and its size, which the signer adds when it has
read the built file. -/
structure SpecAsset where
  os : Text
  arch : Text
  flavor : Text
  /-- The file's name on the release, and in the directory of the built files. -/
  name : Text
  url : Option Text
  /-- Where its detached signature lies, in the directory of the built files. -/
  sigFile : Option Text
  deriving DecidableEq, Repr

/-- What is released of one app: its version, the oldest supported one, and the files of its
builds. -/
structure SpecApp where
  app : Text
  version : Text
  minSupported : Text
  notesUrl : Text
  assets : List SpecAsset
  deriving DecidableEq, Repr

/-- The signing spec: a channel, and the apps that are released on it. -/
structure Spec where
  channel : Text
  apps : List SpecApp
  deriving DecidableEq, Repr

/-- The fields of a build that is to be signed. The digest and the size are not among them:
they are those of the file. -/
def SpecAsset.record : Record SpecAsset :=
  Record.iso
    (.cons (.required "os".toList .text)
      (.cons (.required "arch".toList .text)
        (.cons (.defaulted "flavor".toList .text [])
          (.cons (.required "name".toList .text)
            (.cons (.optional "url".toList .text)
              (.single (.optional "sig_file".toList .text))
              (by decide)) (by decide)) (by decide)) (by decide)) (by decide))
    { toFun := fun (os, arch, flavor, name, url, sigFile) =>
        ⟨os, arch, flavor, name, url, sigFile⟩
      invFun := fun a => (a.os, a.arch, a.flavor, a.name, a.url, a.sigFile)
      left_inv := fun _ => rfl
      right_inv := fun _ => rfl }

/-- The fields of an application that is to be released, with the texts that may be left out
and the files of the release. -/
def SpecApp.record : Record SpecApp :=
  Record.iso
    (.cons (.required "app".toList .text)
      (.cons (.required "version".toList .text)
        (.cons (.defaulted "min_supported".toList .text [])
          (.cons (.defaulted "notes_url".toList .text [])
            (.single (.required "assets".toList (.list (.object SpecAsset.record))))
            (by decide)) (by decide)) (by decide)) (by decide))
    { toFun := fun (app, version, minSupported, notesUrl, assets) =>
        ⟨app, version, minSupported, notesUrl, assets⟩
      invFun := fun a => (a.app, a.version, a.minSupported, a.notesUrl, a.assets)
      left_inv := fun _ => rfl
      right_inv := fun _ => rfl }

/-- The fields of what is to be signed; the channel is `stable` if it is not said. -/
def Spec.record : Record Spec :=
  Record.iso
    (.cons (.defaulted "channel".toList .text "stable".toList)
      (.single (.required "apps".toList (.list (.object SpecApp.record)))) (by decide))
    { toFun := fun (channel, apps) => ⟨channel, apps⟩
      invFun := fun s => (s.channel, s.apps)
      left_inv := fun _ => rfl
      right_inv := fun _ => rfl }

/-- What is to be signed as an object, read from the spec's own file. -/
def Spec.codec : Codec Spec := .object record

/-! ## A run -/

/-- The arguments of a run, as the command line gives them. -/
structure SignArgs where
  spec : Text
  assetsDir : Text
  out : Text
  secret : Option Text
  secretFile : Option Text
  baseUrl : Option Text
  expiresDays : ℤ

/-- What a run meets: the files, the environment and the clock; each is a parameter, so that
a run is a function of what it meets. -/
structure SignRun where
  read : Text → Except Text Bytes
  readToString : Text → Except Text Text
  isPresent : Text → Bool
  /-- Write a file. -/
  write : Text → Bytes → Except Text Unit
  /-- A path in a directory. -/
  join : Text → Text → Text
  /-- `NOEMA_UPDATE_SECRET`, when it is set. -/
  secretVar : Option Text
  now : ℤ
  /-- A document of the wrong shape is no spec. -/
  specShape : Json.Tree → Text
  /-- What is said of a text that is no hexadecimal. -/
  hexError : Text → Text
  /-- A document printed over several lines. -/
  pretty : Json.Tree → Bytes
  /-- What is read fits the memory. -/
  read_lt : ∀ path bytes, read path = .ok bytes → bytes.length < 2 ^ 63
  now_fits : IsInstant now

/-- An error with what was being done when it came up; a success is passed on as it is. -/
def context {α : Type} (doing : Text) : Except Text α → Except Text α
  | .ok a => .ok a
  | .error e => .error (doing ++ ": ".toList ++ e)

/-- A number that is kept within 64 bits, at the nearer end where it is outside. -/
def saturate (i : ℤ) : ℤ := max (-(2 ^ 63)) (min (2 ^ 63 - 1) i)

/-- The schema of release manifests, which this build writes and reads. -/
def RELEASE_MANIFEST_SCHEMA : ℕ := 1

/-- A day in milliseconds, in which the expiry is counted. -/
def DAY_MS : ℤ := 24 * 60 * 60 * 1000

/-- The instant from which a manifest of some time counts as stale. -/
def expiresAt (now expiresDays : ℤ) : ℤ := saturate (now + saturate (expiresDays * DAY_MS))

/-- The key pair of a seed in hexadecimal, which has to be 32 bytes long. -/
def KeyPair.fromSecretHex (hexError : Text → Text) (hexSeed : Text) : Except Text KeyPair :=
  match hexDecode hexSeed.trim with
  | none => .error ("key error: bad secret hex: ".toList ++ hexError hexSeed.trim)
  | some secret =>
    if secret.length = 32 then .ok ⟨secret⟩
    else .error "key error: secret key must be 32 bytes".toList

/-- Where a file is downloaded from: the address its spec gives, or its name under the base
address. -/
def SignArgs.assetUrl (args : SignArgs) (asset : SpecAsset) : Except Text Text :=
  match asset.url with
  | some u => .ok u
  | none => match args.baseUrl with
    | some base => .ok (trimEndMatches "/".toList base ++ "/".toList ++ asset.name)
    | none => .error ("asset ".toList ++ asset.name ++
        " has no `url` and no --base-url was given".toList)

namespace SignRun

variable (run : SignRun) (args : SignArgs)

/-- The signing key as it was given: an argument, a file, or the environment, in this order. -/
def rawSecret : Except Text Text :=
  match args.secret with
  | some s => .ok s.trim
  | none => match args.secretFile with
    | some f => (context ("reading secret file ".toList ++ f) (run.readToString f)).map trim
    | none => match run.secretVar with
      | some s => .ok s.trim
      | none => .ok []

/-- The signing key, if it has the shape of one: `--secret` goes first, then the file, and
then the variable. -/
def readSecret : Except Text Text :=
  (rawSecret run args).bind fun raw =>
    if raw = [] then
      .error "no signing key: pass --secret-file, --secret, or set NOEMA_UPDATE_SECRET".toList
    else if raw.utf8Len ≠ 64 ∨ raw.all isAsciiHexdigit = false then
      .error "signing key must be a 32-byte ed25519 seed as 64 hex chars".toList
    else .ok raw

/-- The detached signature of a file, from its `.sig` file unless the spec names another. -/
def loadSig (asset : SpecAsset) : Except Text Text :=
  let candidate := match asset.sigFile with
    | some rel => run.join args.assetsDir rel
    | none => run.join args.assetsDir (asset.name ++ ".sig".toList)
  if run.isPresent candidate then
    (context ("reading sig ".toList ++ candidate) (run.readToString candidate)).map trim
  else if asset.sigFile.isSome then
    .error ("declared sig_file ".toList ++ candidate ++ " not found".toList)
  else .ok []

/-- The built file of an asset, in the directory where the builds are. -/
def built (asset : SpecAsset) : Except Text Bytes :=
  run.read (run.join args.assetsDir asset.name)

variable (R : ReleaseReader)

/-- A file of the release, with its digest and its size, its address on the release and the
signature that lies beside it. -/
def platformAsset (asset : SpecAsset) : Except Text PlatformAsset := do
  let bytes ← context ("reading asset ".toList ++ run.join args.assetsDir asset.name)
    (run.built args asset)
  let url ← args.assetUrl asset
  let signature ← run.loadSig args asset
  return ⟨asset.os, asset.arch, asset.flavor, asset.name, url, hexEncode (R.sha256 bytes),
    bytes.length, signature⟩

/-- What is released of an app: its builds, each with its digest and size; one that cannot
be read fails the run. -/
def appRelease (sa : SpecApp) : Except Text AppRelease := do
  let assets ← sa.assets.mapM (run.platformAsset args R)
  return ⟨sa.app, sa.version, sa.minSupported, sa.notesUrl, assets⟩

/-- The manifest of some releases, before it is signed, which expires so many days after the
time of the run. -/
def manifest (spec : Spec) (apps : List AppRelease) : ReleaseManifest where
  schema := RELEASE_MANIFEST_SCHEMA
  channel := spec.channel
  generatedAt := run.now
  expiresAt := Atlas.expiresAt run.now args.expiresDays
  apps := apps
  signatures := []

/-- Read the spec, with the errors of the file and of the document told apart. -/
def readSpec : Except Text Spec := do
  let bytes ← context ("reading spec ".toList ++ args.spec) (run.read args.spec)
  let doc ← context "parsing spec JSON".toList (R.parse bytes)
  match Spec.codec.decode doc with
  | some spec => return spec
  | none => .error ("parsing spec JSON: ".toList ++ run.specShape doc)

/-- Make and sign a release manifest; what is written to the path `out`. -/
def sign : Except Text Bytes := do
  let spec ← run.readSpec args R
  let secret ← run.readSecret args
  let apps ← spec.apps.mapM (run.appRelease args R)
  if args.expiresDays ≤ 0 then
    .error ("--expires-days must be positive (got ".toList ++ (ofInt args.expiresDays).text ++
      ")".toList)
  else
    let k ← context "signing manifest".toList (KeyPair.fromSecretHex run.hexError secret)
    let json := run.pretty
      (ReleaseManifest.codec.encode ((run.manifest args spec apps).sign R k))
    context ("writing ".toList ++ args.out) (run.write args.out json)
    return json

end SignRun

/-! ## What a run that succeeds wrote -/

/-- A hexadecimal digit is an ASCII character. -/
theorem toNat_lt_of_hexdigit {c : Char} (h : isAsciiHexdigit c = true) : c.toNat < 128 := by
  by_contra hlarge
  have hle : ∀ d : Char, d.toNat < 128 → c ≤ d → False := fun d hd hcd =>
    hlarge (Nat.lt_of_le_of_lt (Char.le_def.mp hcd) hd)
  unfold isAsciiHexdigit at h
  simp only [Bool.or_eq_true, Bool.and_eq_true, decide_eq_true_eq] at h
  obtain (⟨-, h⟩ | ⟨-, h⟩) | ⟨-, h⟩ := h
  · exact hle '9' (by decide) h
  · exact hle 'f' (by decide) h
  · exact hle 'F' (by decide) h

/-- A hexadecimal digit is one byte, and no white space. -/
theorem ascii_of_hexdigit {c : Char} (h : isAsciiHexdigit c = true) :
    c.utf8Size = 1 ∧ isWhitespace c = false := by
  have hall : ∀ c : Char, c.toNat < 128 → isAsciiHexdigit c = true →
      c.utf8Size = 1 ∧ isWhitespace c = false :=
    forall_char_lt (by decide +kernel)
  exact hall c (toNat_lt_of_hexdigit h) h

/-- A sequence gives a value through its parts. -/
theorem bind_eq_ok_iff {ε α β : Type} {x : Except ε α} {f : α → Except ε β} {b : β} :
    x >>= f = .ok b ↔ ∃ a, x = .ok a ∧ f a = .ok b := by
  cases x with
  | error e =>
    constructor
    · intro h
      cases h
    · rintro ⟨a, h, -⟩
      cases h
  | ok a =>
    constructor
    · exact fun h => ⟨a, rfl, h⟩
    · rintro ⟨a', ha, h⟩
      cases ha
      exact h

theorem context_eq_ok_iff {α : Type} {doing : Text} {x : Except Text α} {a : α} :
    context doing x = .ok a ↔ x = .ok a := by
  cases x with
  | ok a' => rfl
  | error e =>
    constructor
    · intro h
      cases h
    · intro h
      cases h

/-- What was made one by one. -/
theorem mapM_eq_ok_iff {ε α β : Type} {f : α → Except ε β} {as : List α} {bs : List β} :
    as.mapM f = .ok bs ↔ List.Forall₂ (fun a b => f a = .ok b) as bs := by
  induction as generalizing bs with
  | nil =>
    rw [List.mapM_nil, List.forall₂_nil_left_iff]
    exact ⟨fun h => (Except.ok.inj h).symm, fun h => congrArg Except.ok h.symm⟩
  | cons a as ih =>
    rw [List.mapM_cons, List.forall₂_cons_left_iff]
    constructor
    · intro h
      cases ha : f a with
      | error e =>
        rw [ha] at h
        cases h
      | ok b =>
        rw [ha] at h
        cases has : as.mapM f with
        | error e =>
          rw [has] at h
          cases h
        | ok bs' =>
          rw [has] at h
          exact ⟨b, bs', rfl, ih.mp has, (Except.ok.inj h).symm⟩
    · rintro ⟨b, bs', ha, has, rfl⟩
      rw [ha, ih.mpr has]
      rfl

/-- What was made was made of something. -/
theorem forall₂_mem_right {α β : Type} {r : α → β → Prop} {as : List α} {bs : List β}
    (h : List.Forall₂ r as bs) {b : β} (hb : b ∈ bs) : ∃ a ∈ as, r a b := by
  induction h with
  | nil => exact absurd hb List.not_mem_nil
  | @cons a b' as bs hhead _ ih =>
    obtain rfl | hb := List.mem_cons.mp hb
    · exact ⟨a, List.mem_cons_self, hhead⟩
    · obtain ⟨a', ha', hr⟩ := ih hb
      exact ⟨a', List.mem_cons_of_mem _ ha', hr⟩

namespace SignRun

variable {run : SignRun} {args : SignArgs} {R : ReleaseReader}

/-- What a run that succeeded made, and wrote: each step's result, from the spec to the file. -/
structure Made (run : SignRun) (args : SignArgs) (R : ReleaseReader) (json : Bytes)
    (spec : Spec) (k : KeyPair) (apps : List AppRelease) : Prop where
  readsSpec : run.readSpec args R = .ok spec
  readsKey : ∃ secret, run.readSecret args = .ok secret ∧
    KeyPair.fromSecretHex run.hexError secret = .ok k
  releases : List.Forall₂ (fun sa r => run.appRelease args R sa = .ok r) spec.apps apps
  lives : 0 < args.expiresDays
  writes : run.write args.out json = .ok ()
  prints : json = run.pretty (ReleaseManifest.codec.encode
    ((run.manifest args spec apps).sign R k))

/-- **A run succeeds exactly if there is a spec, a key, every file it releases, with an
address and the signature the spec names, a time to live, and somewhere to write to.** -/
theorem sign_eq_ok_iff {json : Bytes} :
    run.sign args R = .ok json ↔ ∃ spec k apps, run.Made args R json spec k apps := by
  unfold sign
  simp only [bind_eq_ok_iff]
  constructor
  · rintro ⟨spec, hspec, secret, hsecret, apps, happs, h⟩
    split at h
    · cases h
    · rename_i hdays
      simp only [bind_eq_ok_iff, context_eq_ok_iff] at h
      obtain ⟨k, hk, u, hwrite, hjson⟩ := h
      cases hjson
      exact ⟨spec, k, apps, hspec, ⟨secret, hsecret, hk⟩, mapM_eq_ok_iff.mp happs,
        not_le.mp hdays, hwrite, rfl⟩
  · rintro ⟨spec, k, apps, hspec, ⟨secret, hsecret, hk⟩, happs, hdays, hwrite, rfl⟩
    refine ⟨spec, hspec, secret, hsecret, apps, mapM_eq_ok_iff.mpr happs, ?_⟩
    rw [if_neg (not_le.mpr hdays)]
    simp only [bind_eq_ok_iff, context_eq_ok_iff]
    exact ⟨k, hk, (), hwrite, rfl⟩

end SignRun

end Atlas
