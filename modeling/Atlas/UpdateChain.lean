import Atlas.Updater

/-!
# What the updater owes

Between the server and the program that runs stand a signature, a comparison
of versions, a choice among assets, and two digests, one when an asset is
downloaded and one when it is applied. What they come to is
`checkWithTrust_apply_sound`: whatever the server sends, nothing is put in
place or launched but a file whose digest a trusted key signed for.
-/

namespace Atlas

open Text Program

/-! ## What a check owes -/

section Check

variable {L : UpdateLibs}

/-- A manifest offers an update to a copy at a time: it is not expired then,
and its release of the program is newer than the copy and has the asset, which
is for the copy's platform. -/
structure ReleaseManifest.Offers (L : UpdateLibs) (host : Host) (now : ℤ) (current : Text)
    (m : ReleaseManifest) (info : UpdateInfo) : Prop where
  unexpired : m.isExpired now = false
  release : ∃ r, m.app "atlas".toList = some r ∧ r.version = info.version ∧
    (∃ v c, L.parseVersion r.version.trim = some v ∧
      L.parseVersion current.trim = some c ∧ L.versionGt v c = true) ∧
    info.asset ∈ r.assets ∧
    info.asset.isFor host.os host.arch info.flavor.assetFlavor = true
  flavor : info.flavor = host.flavor

theorem versionGt_eq_true {a b : Text} (h : versionGt L a b = true) :
    ∃ v c, L.parseVersion a.trim = some v ∧ L.parseVersion b.trim = some c ∧
      L.versionGt v c = true := by
  unfold versionGt at h
  split at h
  · rename_i v c hv hc
    exact ⟨v, c, hv, hc, h⟩
  · cases h

theorem offeredUpdate_sound {host : Host} {now : ℤ} {current : Text} {trusted : List Text}
    {m : ReleaseManifest} {info : UpdateInfo}
    (h : offeredUpdate L host now current trusted m = some info) :
    m.isSignedByTrusted L trusted = true ∧ m.Offers L host now current info := by
  unfold offeredUpdate at h
  split at h
  · cases h
  · rename_i hsigned
    split at h
    · cases h
    · rename_i hexpired
      split at h
      · cases h
      · rename_i r happ
        split at h
        · cases h
        · rename_i hnewer
          split at h
          · cases h
          · rename_i asset hasset
            cases h
            have hnewer : r.isNewerThan L current = true := by simpa using hnewer
            exact ⟨by simpa using hsigned,
              ⟨by simpa using hexpired,
                ⟨r, happ, rfl, versionGt_eq_true hnewer, List.mem_of_find?_eq_some hasset,
                  List.find?_some hasset⟩, rfl⟩⟩

/-- What a check that finds something found: a manifest the server sent. -/
theorem checkWithTrust_offered {net : Network} {host : Host} {now : ℤ}
    {trackerUrl current : Text} {trusted : List Text} {info : UpdateInfo}
    (h : checkWithTrust L net host now trackerUrl current trusted = .ok (some info)) :
    ∃ m, offeredUpdate L host now current trusted m = some info := by
  unfold checkWithTrust at h
  cases hfetch : fetchManifest net
      (trimEndMatches "/".toList trackerUrl ++ "/update/latest".toList) with
  | error e =>
    rw [hfetch] at h
    cases h
  | ok bytes =>
    cases hjson : L.fromJson bytes with
    | error e =>
      simp only [hfetch, hjson, bind, Except.bind] at h
      cases h
    | ok m =>
      simp only [hfetch, hjson, bind, Except.bind] at h
      exact ⟨m, Except.ok.inj h⟩

end Check

/-! ## What a download owes -/

section Download

variable {L : UpdateLibs}

/-- The digest of some bytes is the one an asset names, in either case of letters and with
blanks around the digest. -/
def PlatformAsset.Names (L : UpdateLibs) (a : PlatformAsset) (b : Bytes) : Prop :=
  eqIgnoreAsciiCase (hexEncode (L.sha256 b)) a.sha256.trim = true

theorem attempt_triple {P : Staging → Prop} {failure : Option Text} :
    Triple P (attempt failure) (Returns P fun _ _ => True) := by
  intro s hs
  cases failure with
  | none => exact ⟨hs, trivial⟩
  | some e => exact hs

/-- What is hashed is what is written. -/
theorem writeChunks_triple {run : AssetRun} {asset : PlatformAsset} {tmp : Text}
    (chunks : List Bytes) (i : ℕ) (hashed : Bytes) :
    Triple (fun s => s.files tmp = some hashed) (writeChunks run asset tmp i hashed chunks)
      (Returns (fun _ => True) fun b s => s.files tmp = some b) := by
  induction chunks generalizing i hashed with
  | nil => exact Triple.pure_returns fun s hs => ⟨trivial, hs⟩
  | cons chunk chunks ih =>
    unfold writeChunks
    refine Triple.ite (fun _ => Triple.throw_returns fun _ _ => trivial) fun _ => ?_
    cases run.writeAll i with
    | some fault =>
      exact Triple.bind_returns (I := fun _ => True) (R := fun _ _ => True)
        (fun _ _ => ⟨trivial, trivial⟩) (fun _ _ => trivial)
        fun _ => Triple.throw_returns fun _ _ => trivial
    | none =>
      refine Triple.bind_returns (I := fun _ => True)
        (R := fun _ s => s.files tmp = some (hashed ++ chunk))
        (Triple.modify_returns fun s _ => ⟨trivial, s.write_self _ _⟩) (fun _ _ => trivial)
        fun _ => ?_
      exact (ih (i + 1) (hashed ++ chunk)).conseq (fun _ h => h.2) fun _ _ => id

theorem streamAsset_triple {run : AssetRun} {asset : PlatformAsset} {tmp : Text}
    {body : Body} :
    Triple (fun _ => True) (streamAsset L run asset tmp body)
      (Returns (fun _ => True) fun _ s => ∃ b, s.files tmp = some b ∧ asset.Names L b) := by
  unfold streamAsset
  refine Triple.bind_returns attempt_triple (fun _ => id) fun _ => ?_
  refine Triple.bind_returns (I := fun _ => True) (R := fun _ s => s.files tmp = some [])
    (Triple.modify_returns fun s _ => ⟨trivial, s.write_self _ _⟩) (fun _ => id) fun _ => ?_
  refine Triple.bind_returns
    ((writeChunks_triple body.chunks 0 []).conseq (fun _ h => h.2) fun _ _ => id)
    (fun _ => id) fun hashed => ?_
  refine Triple.bind_returns attempt_triple (fun _ _ => trivial) fun _ => ?_
  refine Triple.bind_returns attempt_triple (fun _ _ => trivial) fun _ => ?_
  refine Triple.ite (fun _ => Triple.throw_returns fun _ _ => trivial) fun hnames => ?_
  refine Triple.pure_returns fun s hs => ⟨trivial, hashed, hs.1.1.2, ?_⟩
  rw [Bool.not_eq_true, Bool.not_eq_false'] at hnames
  exact hnames

/-- **A file that is returned is the one the asset names**: its digest is. -/
theorem downloadVerified_names {net : Network} {run : AssetRun} {asset : PlatformAsset} :
    Triple (fun _ => True) (downloadVerified L net run asset)
      (Returns (fun _ => True) fun p s => ∃ b, s.files p = some b ∧ asset.Names L b) := by
  unfold downloadVerified
  refine Triple.bind_returns (I := fun _ => True) (R := fun _ _ => True) ?_ (fun _ => id)
    fun _ => ?_
  · cases net.httpClient with
    | ok u => exact fun _ _ => ⟨trivial, trivial⟩
    | error e => exact fun _ _ => trivial
  cases net.send asset.url with
  | error e => exact Triple.throw_returns fun _ _ => trivial
  | ok resp =>
    refine Triple.ite (fun _ => Triple.throw_returns fun _ _ => trivial) fun _ => ?_
    cases (run.fileName asset.name).filter (· ≠ []) with
    | none => exact Triple.throw_returns fun _ _ => trivial
    | some safeName =>
      have htmp : safeName ≠ safeName ++ ".part".toList := fun h =>
        absurd (congrArg List.length h) (by simp)
      refine Triple.bind_returns attempt_triple (fun _ _ => trivial) fun _ => ?_
      -- a failed stream owes nothing, so only its value is carried on
      refine Triple.bind_returns (I := fun _ => True) (R := fun streamed s =>
          streamed = .ok () → ∃ b, s.files (safeName ++ ".part".toList) = some b ∧
            asset.Names L b) (Triple.result ?_) (fun _ => id) fun streamed => ?_
      · refine streamAsset_triple.conseq (fun _ _ => trivial) fun r s h => ?_
        cases r with
        | ok u => exact ⟨trivial, fun _ => h.2⟩
        | err e => exact ⟨trivial, fun hok => nomatch hok⟩
        | crash => trivial
      · cases streamed with
        | ok u =>
          refine Triple.bind_returns attempt_triple (fun _ _ => trivial) fun _ => ?_
          refine Triple.bind_returns (I := fun _ => True)
            (R := fun _ s => ∃ b, s.files safeName = some b ∧ asset.Names L b)
            (Triple.modify_returns ?_) (fun _ => id) fun _ => Triple.pure_returns fun _ => id
          rintro s ⟨⟨-, hstreamed⟩, -⟩
          obtain ⟨b, hb, hnames⟩ := hstreamed rfl
          refine ⟨trivial, b, ?_, hnames⟩
          rw [Staging.write_of_ne _ _ htmp, Staging.write_self, hb]
        | error e =>
          refine Triple.bind_returns (I := fun _ => True) (R := fun _ _ => True) ?_
            (fun _ => id) fun _ => Triple.throw_returns fun _ _ => trivial
          exact Triple.ite (fun _ _ _ => ⟨trivial, trivial⟩) fun _ _ _ => ⟨trivial, trivial⟩

end Download

/-! ## What applying owes -/

section Apply

variable {L : UpdateLibs} {run : ApplyRun} {staged : Text} {acts : List Acted} {b : Bytes}

/-- Some contents come from a staged file: they are the file's own, or those of
files that were unpacked from it. -/
def ApplyRun.Carries (run : ApplyRun) (b : Bytes) (contents : List Bytes) : Prop :=
  contents = [b] ∨ ∃ u, run.unpack b = .ok (some u) ∧
    (u.bundle = some contents ∨ ∃ file ∈ u.files, contents = [file.2])

/-- An action is on some bytes: the staged file has them, and what is put in
place or launched comes from them. -/
structure Acted.On (run : ApplyRun) (b : Bytes) (a : Acted) : Prop where
  staged : a.staged = some b
  installed : run.Carries b a.installed

/-- What was done since is on some bytes: every action on a staged file found just these. -/
def Staging.OnlyOn (s : Staging) (run : ApplyRun) (acts : List Acted) (b : Bytes) : Prop :=
  ∃ new, s.acted = acts ++ new ∧ ∀ a ∈ new, a.On run b

/-- The staged file has some bytes, and what was done since is on them. -/
structure Staging.Holds (s : Staging) (run : ApplyRun) (staged : Text) (acts : List Acted)
    (b : Bytes) : Prop where
  file : s.files staged = some b
  only : s.OnlyOn run acts b

/-- The postcondition of a part of an update that leaves the staged file alone. -/
abbrev ApplyRun.Leaves (run : ApplyRun) (staged : Text) (acts : List Acted) (b : Bytes)
    {α : Type} (R : α → Prop) : Exit Text α → Staging → Prop :=
  Returns (fun s => s.Holds run staged acts b) fun a _ => R a

theorem act_triple {action : Action} {installed : List Bytes}
    (h : run.Carries b installed) :
    Triple (fun s => s.Holds run staged acts b) (act action staged installed)
      (run.Leaves staged acts b fun _ => True) := by
  refine Triple.modify_returns fun s hs => ⟨⟨hs.file, ?_⟩, trivial⟩
  obtain ⟨new, hacted, hnew⟩ := hs.only
  refine ⟨new ++ [⟨action, s.files staged, installed⟩], ?_, fun a ha => ?_⟩
  · show s.acted ++ _ = _
    rw [hacted, List.append_assoc]
  · obtain ha | ha := List.mem_append.mp ha
    · exact hnew a ha
    · rw [List.mem_singleton.mp ha]
      exact ⟨hs.file, h⟩

theorem removeStaged_triple :
    Triple (fun s => s.Holds run staged acts b) (removeStaged staged)
      (Returns (fun s => s.OnlyOn run acts b) fun _ _ => True) :=
  Triple.modify_returns fun _ hs => ⟨hs.only, trivial⟩

theorem setExecutable_triple {P : Staging → Prop} :
    Triple P (setExecutable run) (Returns P fun _ _ => True) :=
  Triple.ite (fun _ => Triple.pure_returns fun _ hs => ⟨hs, trivial⟩)
    fun _ => attempt_triple

/-- What the staged file has is read from the store. -/
theorem get_triple :
    Triple (fun s => s.Holds run staged acts b)
      (Program.get : Program Staging Text Staging)
      (run.Leaves staged acts b fun s => s.files staged = some b) :=
  Triple.get fun _ hs => ⟨hs, hs.file⟩

theorem createWork_triple {work : Text} :
    Triple (fun s => s.Holds run staged acts b) (createWork run work)
      (run.Leaves staged acts b fun _ => True) :=
  Triple.bind_value get_triple (fun _ => id) fun _ _ =>
    Triple.ite (fun _ => Triple.throw_returns fun _ => id) fun _ => attempt_triple

theorem extractArchive_triple :
    Triple (fun s => s.Holds run staged acts b) (extractArchive run staged)
      (run.Leaves staged acts b fun u => run.unpack b = .ok (some u)) := by
  refine Triple.bind_value get_triple (fun _ => id) fun s₀ hfile => ?_
  rw [hfile]
  dsimp only
  cases hunpack : run.unpack b with
  | error e => exact Triple.throw_returns fun _ => id
  | ok unpacked =>
    cases unpacked with
    | none => exact Triple.throw_returns fun _ => id
    | some u => exact Triple.pure_returns fun _ hs => ⟨hs, rfl⟩

theorem portableBinary_triple {exe : Text} :
    Triple (fun s => s.Holds run staged acts b) (portableBinary run exe staged)
      (run.Leaves staged acts b (run.Carries b)) := by
  refine Triple.ite (fun _ => ?_) fun _ => ?_
  · refine Triple.bind_value createWork_triple (fun _ => id) fun _ _ => ?_
    refine Triple.bind_value extractArchive_triple (fun _ => id) fun u hunpack => ?_
    cases run.fileName exe with
    | none => exact Triple.throw_returns fun _ => id
    | some wanted =>
      dsimp only
      cases hfound : u.findFileNamed wanted with
      | none => exact Triple.throw_returns fun _ => id
      | some binary =>
        refine Triple.bind_value setExecutable_triple (fun _ => id) fun _ _ => ?_
        obtain ⟨file, hfile, rfl⟩ := Option.map_eq_some_iff.mp hfound
        exact Triple.pure_returns fun _ hs =>
          ⟨hs, Or.inr ⟨u, hunpack, Or.inr ⟨file, List.mem_of_find?_eq_some hfile, rfl⟩⟩⟩
  · refine Triple.bind_value get_triple (fun _ => id) fun s₀ hfile => ?_
    rw [hfile]
    exact Triple.pure_returns fun _ hs => ⟨hs, Or.inl rfl⟩

/-- What a whole update owes, however it ends: nothing was done but on these bytes. -/
abbrev ApplyRun.Owes (run : ApplyRun) (acts : List Acted) (b : Bytes) :
    Exit Text ApplyOutcome → Staging → Prop :=
  Returns (fun s => s.OnlyOn run acts b) fun _ _ => True

theorem applySelfReplace_triple :
    Triple (fun s => s.Holds run staged acts b) (applySelfReplace run staged)
      (run.Owes acts b) := by
  refine Triple.bind_value (Triple.ofExcept_returns _) (fun _ hs => hs.only) fun exe _ => ?_
  refine Triple.bind_value portableBinary_triple (fun _ hs => hs.only) fun binary hbinary => ?_
  refine Triple.bind_value (act_triple hbinary) (fun _ hs => hs.only) fun _ _ => ?_
  refine Triple.bind_value removeStaged_triple (fun _ => id) fun _ _ => ?_
  refine Triple.bind_value attempt_triple (fun _ => id) fun _ _ => ?_
  exact Triple.pure_returns fun _ h => ⟨h, trivial⟩

theorem applyAppimage_triple :
    Triple (fun s => s.Holds run staged acts b) (applyAppimage run staged)
      (run.Owes acts b) := by
  refine Triple.ite (fun _ => Triple.throw_returns fun _ hs => hs.only) fun _ => ?_
  cases run.appimage with
  | none => exact Triple.throw_returns fun _ hs => hs.only
  | some appimage =>
    dsimp only
    cases run.parent appimage with
    | none => exact Triple.throw_returns fun _ hs => hs.only
    | some parent =>
      refine Triple.ite (fun _ => Triple.pure_returns fun _ hs => ⟨hs.only, trivial⟩)
        fun _ => ?_
      refine Triple.bind_value get_triple (fun _ hs => hs.only) fun s₀ hfile => ?_
      rw [hfile]
      refine Triple.bind_value attempt_triple (fun _ hs => hs.only) fun _ _ => ?_
      refine Triple.bind_value setExecutable_triple (fun _ hs => hs.only) fun _ _ => ?_
      refine Triple.bind_value (act_triple (Or.inl rfl)) (fun _ hs => hs.only) fun _ _ => ?_
      refine Triple.bind_value attempt_triple (fun _ hs => hs.only) fun _ _ => ?_
      refine Triple.bind_value removeStaged_triple (fun _ => id) fun _ _ => ?_
      exact Triple.pure_returns fun _ h => ⟨h, trivial⟩

theorem applyMacos_triple :
    Triple (fun s => s.Holds run staged acts b) (applyMacos run staged)
      (run.Owes acts b) := by
  refine Triple.ite (fun _ => Triple.throw_returns fun _ hs => hs.only) fun _ => ?_
  refine Triple.bind_value (Triple.ofExcept_returns _) (fun _ hs => hs.only) fun _ _ => ?_
  cases run.bundle with
  | none => exact Triple.throw_returns fun _ hs => hs.only
  | some bundle =>
    dsimp only
    cases run.parent bundle with
    | none => exact Triple.throw_returns fun _ hs => hs.only
    | some parent =>
      refine Triple.ite (fun _ => Triple.pure_returns fun _ hs => ⟨hs.only, trivial⟩)
        fun _ => ?_
      refine Triple.bind_value createWork_triple (fun _ hs => hs.only) fun _ _ => ?_
      refine Triple.bind_value get_triple (fun _ hs => hs.only) fun s₀ hfile => ?_
      rw [hfile, Option.map_some]
      cases hunpack : run.unpack b with
      | error e => exact Triple.throw_returns fun _ hs => hs.only
      | ok unpacked =>
        cases unpacked with
        | none => exact Triple.throw_returns fun _ hs => hs.only
        | some u =>
          dsimp only
          cases hbundle : u.bundle with
          | none => exact Triple.throw_returns fun _ hs => hs.only
          | some newApp =>
            have hcarries : run.Carries b newApp := Or.inr ⟨u, hunpack, Or.inl hbundle⟩
            refine Triple.bind_value attempt_triple (fun _ hs => hs.only) fun _ _ => ?_
            refine Triple.bind_value (act_triple hcarries) (fun _ hs => hs.only) fun _ _ => ?_
            refine Triple.bind_value attempt_triple (fun _ hs => hs.only) fun _ _ => ?_
            refine Triple.bind_value removeStaged_triple (fun _ => id) fun _ _ => ?_
            exact Triple.pure_returns fun _ h => ⟨h, trivial⟩

theorem applyWindowsInstaller_triple :
    Triple (fun s => s.Holds run staged acts b) (applyWindowsInstaller run staged)
      (run.Owes acts b) := by
  refine Triple.ite (fun _ => Triple.throw_returns fun _ hs => hs.only) fun _ => ?_
  refine Triple.bind_value get_triple (fun _ hs => hs.only) fun s₀ hfile => ?_
  rw [hfile]
  refine Triple.bind_value (act_triple (Or.inl rfl)) (fun _ hs => hs.only) fun _ _ => ?_
  refine Triple.bind_value attempt_triple (fun _ hs => hs.only) fun _ _ => ?_
  exact Triple.pure_returns fun _ hs => ⟨hs.only, trivial⟩

theorem applyVerified_triple (flavor : Flavor) :
    Triple (fun s => s.Holds run staged acts b) (applyVerified run flavor staged)
      (run.Owes acts b) := by
  cases flavor with
  | macApp => exact applyMacos_triple
  | winInstaller => exact applyWindowsInstaller_triple
  | winPortable => exact applySelfReplace_triple
  | linuxAppImage => exact applyAppimage_triple
  | linuxPortable => exact applySelfReplace_triple
  | managed => exact Triple.pure_returns fun _ hs => ⟨hs.only, trivial⟩

/-- Verifying the staged file changes nothing, and passes only when the file's
digest is the expected one. -/
theorem verifyFileSha256_triple {asset : PlatformAsset} {s₀ : Staging} :
    Triple (fun s => s = s₀) (verifyFileSha256 L run staged asset.sha256.trim)
      (Returns (fun s => s = s₀) fun _ _ => ∃ b, s₀.files staged = some b ∧
        asset.Names L b) := by
  refine Triple.bind_value attempt_triple (fun _ => id) fun _ _ => ?_
  refine Triple.bind_value (R := (· = s₀)) (Triple.get fun _ hs => ⟨hs, hs⟩) (fun _ => id)
    fun s hs => ?_
  rw [hs]
  cases hfile : s₀.files staged with
  | none => exact Triple.throw_returns fun _ => id
  | some data =>
    refine Triple.bind_value attempt_triple (fun _ => id) fun _ _ => ?_
    exact Triple.ite (fun hnames => Triple.pure_returns fun _ hs => ⟨hs, data, rfl, hnames⟩)
      fun _ => Triple.throw_returns fun _ => id

/-- **An update acts on the staged file only when its digest is the one the
asset names**, and nothing is put in place or launched that is not the file or
was not unpacked from it. -/
theorem apply_onlyOn {info : UpdateInfo} (s : Staging) :
    (apply L run info staged s).2.acted = s.acted ∨
      ∃ b, s.files staged = some b ∧ info.asset.Names L b ∧
        (apply L run info staged s).2.OnlyOn run s.acted b := by
  have hverify := @verifyFileSha256_triple L run staged info.asset s s rfl
  unfold apply
  rw [bind_apply]
  rcases hv : verifyFileSha256 L run staged info.asset.sha256.trim s with ⟨u | e | _, s'⟩
  · rw [hv] at hverify
    obtain ⟨rfl, b, hb, hnames⟩ := hverify
    have hholds : s'.Holds run staged s'.acted b :=
      ⟨hb, [], (List.append_nil _).symm, fun _ ha => nomatch ha⟩
    refine Or.inr ⟨b, hb, hnames, ?_⟩
    rw [andThen_ok]
    have howes := applyVerified_triple info.flavor s' hholds
    exact howes.inv
  · rw [hv] at hverify
    exact Or.inl (congrArg Staging.acted hverify)
  · rw [hv] at hverify
    exact Or.inl (congrArg Staging.acted hverify)

end Apply

/-! ## The chain -/

/-- **Nothing is acted on that a trusted key did not sign for.** An update that
is found is offered by a manifest whose canonical bytes a trusted key signed;
and applying it acts on the staged file only when the file's digest is the one
its asset names. -/
theorem checkWithTrust_apply_sound {L : UpdateLibs} {Signed : Bytes → Bytes → Prop}
    (hideal : L.scheme.Ideal Signed) {net : Network} {host : Host} {now : ℤ}
    {trackerUrl current : Text} {trusted : List Text} {info : UpdateInfo}
    (hcheck : checkWithTrust L net host now trackerUrl current trusted = .ok (some info)) :
    (∃ t ∈ trusted, ∃ key, hexDecode (normKey t) = some key ∧
      ∃ m : ReleaseManifest, Signed key (m.canonicalBytes L) ∧
        m.Offers L host now current info) ∧
    ∀ (run : ApplyRun) (staged : Text) (s : Staging),
      (apply L run info staged s).2.acted = s.acted ∨
        ∃ b, s.files staged = some b ∧ info.asset.Names L b ∧
          (apply L run info staged s).2.OnlyOn run s.acted b := by
  obtain ⟨m, hoffered⟩ := checkWithTrust_offered hcheck
  obtain ⟨hsigned, hoffers⟩ := offeredUpdate_sound hoffered
  obtain ⟨t, ht, key, hkey, hsig⟩ := ReleaseManifest.signed_of_isSignedByTrusted hideal hsigned
  exact ⟨⟨t, ht, key, hkey, m, hsig, hoffers⟩, fun run staged s => apply_onlyOn s⟩

/-! ## A release -/

section Sample

mutual

/-- A JSON value printed compactly, when no text in it needs escaping. -/
def Json.print : Json → Text
  | .number n => (if n < 0 then ['-'] else []) ++ Nat.toDigits 10 n.natAbs
  | .string s => '"' :: s ++ ['"']
  | .array items => '[' :: printItems items ++ [']']
  | .object fields => '\x7b' :: printFields fields ++ ['\x7d']

/-- The items of an array, with commas between them, without a comma after the last one and
without blanks. -/
def printItems : List Json → Text
  | [] => []
  | [item] => item.print
  | item :: items => item.print ++ ',' :: printItems items

/-- The fields of an object, with commas between them; the keys of the example need no escapes. -/
def printFields : List (Text × Json) → Text
  | [] => []
  | [(key, value)] => '"' :: key ++ '"' :: ':' :: value.print
  | (key, value) :: fields =>
    '"' :: key ++ '"' :: ':' :: value.print ++ ',' :: printFields fields

end

/-- A release whose one asset has the bytes `abc`, so that a download of these three bytes
passes every check of the client. -/
def sampleAsset : PlatformAsset where
  os := "linux".toList
  arch := "x86_64".toList
  flavor := "tarball".toList
  name := "atlas".toList
  url := "https://example.com/atlas".toList
  sha256 := hexEncode (sampleDigests.sha256 abc)
  size := 3
  signature := []

/-- The key the release is signed with, which the copies trust. -/
def sampleKey : Bytes :=
  ofNumber 32 0xd75a980182b10ab7d54bfed3c964073a0ee172f3daa62325af021a68f707511a

/-- The signature as it is written in the manifest, in base64. -/
def sampleSignature : Text :=
  ("X2XD/ydrQrN60qIlsuOd2wq/SnsWU8DgsPEws6sKvStg60lFFdk8aWg6jTnlejwJk+2W4VIYJkAp" ++
    "r0sBsIrZCQ==").toList

/-- A release manifest with one application and one signature, which is made by the sample
key, so that it verifies under it. -/
def sampleManifest : ReleaseManifest where
  schema := 1
  channel := "stable".toList
  generatedAt := 0
  expiresAt := 1700000000000
  apps := [⟨"atlas".toList, "0.2.0".toList, [], [], [sampleAsset]⟩]
  signatures := [⟨"ed25519:".toList ++ hexEncode sampleKey, "ed25519".toList, sampleSignature⟩]

/-- Libraries that know the release and two versions, and refuse everything else. -/
def sampleLibs : UpdateLibs where
  fromJson bytes :=
    if bytes = sampleManifest.toValue.print.utf8 then .ok sampleManifest else .error []
  toVec value := value.print.utf8
  Version := ℕ × ℕ × ℕ
  parseVersion v := [("0.1.0".toList, 0, 1, 0), ("0.2.0".toList, 0, 2, 0)].lookup v
  versionGt v w := v.1 > w.1 || v.1 = w.1 && (v.2.1 > w.2.1 || v.2.1 = w.2.1 && v.2.2 > w.2.2)
  scheme := {
    validKey := fun key => key = sampleKey
    verifies := fun key message sig =>
      key = sampleKey &&
        message = (sampleManifest.toValue.remove "signatures".toList).print.utf8 &&
        sig = ofNumber 32 0x5f65c3ff276b42b37ad2a225b2e39ddb0abf4a7b1653c0e0b0f130b3ab0abd2b ++
          ofNumber 32 0x60eb494515d93c69683a8d39e57a3c0993ed96e15218264029af4b01b08ad909
    base64Decode := fun value =>
      if value = sampleSignature then
        some (ofNumber 32 0x5f65c3ff276b42b37ad2a225b2e39ddb0abf4a7b1653c0e0b0f130b3ab0abd2b ++
          ofNumber 32 0x60eb494515d93c69683a8d39e57a3c0993ed96e15218264029af4b01b08ad909)
      else none }
  sha256 := sampleDigests.sha256

/-- The key signed the canonical bytes of the release and nothing else. -/
def SampleSigned (key message : Bytes) : Prop :=
  key = sampleKey ∧ message = sampleManifest.canonicalBytes sampleLibs

theorem sampleLibs_ideal : sampleLibs.scheme.Ideal SampleSigned := by
  intro key message sig h
  obtain ⟨h, -⟩ := Bool.and_eq_true_iff.mp h
  obtain ⟨hkey, hmessage⟩ := Bool.and_eq_true_iff.mp h
  exact ⟨of_decide_eq_true hkey, of_decide_eq_true hmessage⟩

/-- A server with the release, and with nothing under any other address. -/
def sampleNetwork : Network where
  httpClient := .ok ()
  send url :=
    if url = "https://example.com/update/latest".toList then
      .ok ⟨200, "200 OK".toList, ⟨[sampleManifest.toValue.print.utf8], none⟩⟩
    else .error "not found".toList

/-- A portable copy on Linux, which swaps its own binary. -/
def sampleHost : Host := ⟨"linux".toList, "x86_64".toList, .linuxPortable⟩

/-- What a client on Linux is offered from it: the newer version with its asset, and not as
a forced update. -/
def sampleInfo : UpdateInfo := ⟨"0.2.0".toList, [], sampleAsset, false, .linuxPortable⟩

/-- A course of events in which every step of the system succeeds. -/
def sampleApplyRun : ApplyRun where
  platform := .linux
  fileName path := some (path.rtakeWhile (· ≠ '/'))
  openStaged := none
  readStaged := none
  notFound := "No such file or directory (os error 2)".toList
  alreadyExists := "File exists (os error 17)".toList
  currentExe := .ok "/home/user/atlas".toList
  createDir := none
  unpack _ := .ok none
  setExecutable := none
  selfReplace := none
  relaunch := none
  appimage := none
  bundle := none
  parent _ := none
  isReadonly _ := false
  copy := none
  rename := none
  moveOld := none
  moveNew := none
  ditto := false
  reopens := false
  spawn := none

/-- The staging directory with the asset in it, verified and renamed. -/
def sampleStaging : Staging :=
  ⟨fun name => if name = "atlas".toList then some abc else none, []⟩

/-- The release is offered to version 0.1.0, and applying the staged asset
swaps the program for it. -/
theorem sampleUpdate_applies :
    (∃ t ∈ [hexEncode sampleKey], ∃ key, hexDecode (normKey t) = some key ∧
      ∃ m : ReleaseManifest, SampleSigned key (m.canonicalBytes sampleLibs) ∧
        m.Offers sampleLibs sampleHost 1690000000000 "0.1.0".toList sampleInfo) ∧
    (apply sampleLibs sampleApplyRun sampleInfo "atlas".toList sampleStaging).2.acted =
      [⟨.swap, some abc, [abc]⟩] := by
  have hcheck : checkWithTrust sampleLibs sampleNetwork sampleHost 1690000000000
      "https://example.com/".toList "0.1.0".toList [hexEncode sampleKey] =
        .ok (some sampleInfo) := by
    decide +kernel
  exact ⟨(checkWithTrust_apply_sound sampleLibs_ideal hcheck).1, by decide +kernel⟩

end Sample

end Atlas
