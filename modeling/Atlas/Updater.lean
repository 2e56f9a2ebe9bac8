import Atlas.Program
import Atlas.Update

/-!
# The updater

The desktop program asks a server for the release manifest, decides whether it
offers an update for this copy, downloads the asset into a staging directory,
and applies the staged file: swaps the running program for it, replaces the
AppImage, or launches the installer it is.

The server is anything that answers. The system is what it answers at each
step: an `ApplyRun` is one course of events, and the staging directory is the
store the programs run on. It also records what was acted on
(`Staging.acted`): an entry is added when a swap, a replacement or a launch is
attempted, with the bytes the staged file has at that moment.
-/

namespace Atlas

open Text Program

/-! ## Checking for an update -/

/-- How the running copy was installed, which decides how an update is applied. -/
inductive Flavor where
  | macApp
  | winInstaller
  | winPortable
  | linuxAppImage
  | linuxPortable
  /-- Managed by the package manager, or an unknown layout: never updated in
  place. -/
  | managed
  deriving DecidableEq, Repr

/-- The flavor to match an asset against; none for the default asset of an OS
and an arch. -/
def Flavor.assetFlavor : Flavor → Option Text
  | macApp => none
  | winInstaller => some "installer".toList
  | winPortable => some "portable".toList
  | linuxAppImage => some "appimage".toList
  | linuxPortable => some "tarball".toList
  | managed => none

/-- A confirmed-available update for this platform, as it is offered to the user. -/
structure UpdateInfo where
  version : Text
  notesUrl : Text
  asset : PlatformAsset
  forced : Bool
  flavor : Flavor
  deriving DecidableEq, Repr

/-- The body of a response: chunks, and the failure it ends in, if any. -/
structure Body where
  chunks : List Bytes
  broken : Option Text

/-- A response to a request: its status, the status as text, and its body. -/
structure Response where
  status : ℕ
  statusText : Text
  body : Body

/-- Whether the status tells of a success, as one from 200 to 299 does. -/
def Response.isSuccess (r : Response) : Bool := 200 ≤ r.status && r.status ≤ 299

/-- What the network does: an HTTP client can be built or not, and a request
for a URL fails or is answered. -/
structure Network where
  httpClient : Except Text Unit
  send : Text → Except Text Response

/-- The copy that runs: its platform and how it was installed; which files of a release suit
it depends on nothing else. -/
structure Host where
  os : Text
  arch : Text
  flavor : Flavor

/-- The most a manifest's body may have, 4 MiB. -/
def MAX_MANIFEST : ℕ := 4 * 1024 * 1024

/-- Collect a manifest's chunks, and stop at the one that exceeds the bound. -/
def collectChunks (buf : Bytes) : List Bytes → Except Text Bytes
  | [] => .ok buf
  | chunk :: chunks =>
    if MAX_MANIFEST < buf.length + chunk.length then
      .error "update manifest exceeds maximum size".toList
    else collectChunks (buf ++ chunk) chunks

/-- The body of the response a request for the manifest gets; any status outside of 200 to
299 and a broken body are errors. -/
def fetchManifest (net : Network) (url : Text) : Except Text Bytes := do
  net.httpClient
  match net.send url with
  | .error e => .error ("update check: ".toList ++ e)
  | .ok resp =>
    if !resp.isSuccess then .error ("update check: HTTP ".toList ++ resp.statusText)
    else
      let bytes ← collectChunks [] resp.body.chunks
      match resp.body.broken with
      | some e => .error e
      | none => .ok bytes

section Libs

variable (L : UpdateLibs)

/-- What a manifest offers this copy. Nothing, unless it is signed by a trusted
key, is not expired, has a newer version, and has an asset for the platform. -/
def offeredUpdate (host : Host) (now : ℤ) (current : Text) (trusted : List Text)
    (manifest : ReleaseManifest) : Option UpdateInfo :=
  if !manifest.isSignedByTrusted L trusted then none
  else if manifest.isExpired now then none
  else match manifest.app "atlas".toList with
    | none => none
    | some app =>
      if !app.isNewerThan L current then none
      else match app.selectAsset host.os host.arch host.flavor.assetFlavor with
        | none => none
        | some asset => some ⟨app.version, app.notesUrl, asset, app.isForcedFor L current,
            host.flavor⟩

/-- Ask the server for the signed manifest and decide whether an update applies. -/
def checkWithTrust (net : Network) (host : Host) (now : ℤ) (trackerUrl current : Text)
    (trusted : List Text) : Except Text (Option UpdateInfo) := do
  let bytes ← fetchManifest net (trimEndMatches "/".toList trackerUrl ++ "/update/latest".toList)
  match L.fromJson bytes with
  | .error e => .error ("bad manifest: ".toList ++ e)
  | .ok manifest => .ok (offeredUpdate L host now current trusted manifest)

/-! ## The staging directory -/

/-- What is done with a staged file, by the flavor of the installation. -/
inductive Action where
  | swap
  | replaceAppImage
  | launchInstaller
  deriving DecidableEq, Repr

/-- An action as it is attempted: the bytes of the staged file at that moment,
and the contents of the files that are put in place or launched. -/
structure Acted where
  action : Action
  staged : Option Bytes
  installed : List Bytes
  deriving DecidableEq, Repr

/-- The staging directory: its files by name, and what was acted on so far. -/
structure Staging where
  files : Text → Option Bytes
  acted : List Acted

namespace Staging

/-- Write a file of the staging directory, or delete it; every other file stays as it is. -/
def write (s : Staging) (name : Text) (content : Option Bytes) : Staging :=
  { s with files := Function.update s.files name content }

@[simp] theorem write_acted (s : Staging) (name : Text) (content : Option Bytes) :
    (s.write name content).acted = s.acted := rfl

theorem write_self (s : Staging) (name : Text) (content : Option Bytes) :
    (s.write name content).files name = content :=
  Function.update_self ..

theorem write_of_ne (s : Staging) {name other : Text} (content : Option Bytes)
    (h : other ≠ name) : (s.write name content).files other = s.files other :=
  Function.update_of_ne h ..

end Staging

/-- A step of the system: the failure it answers with, if any. -/
def attempt (failure : Option Text) : Program Staging Text Unit :=
  match failure with
  | some e => throw e
  | none => pure ()

/-! ## Downloading -/

/-- What the system answers while an asset is downloaded. A write may fail with
some of the chunk written. -/
structure AssetRun where
  /-- The last component of a path, when that is a plain name. -/
  fileName : Text → Option Text
  createDir : Option Text
  createTmp : Option Text
  writeAll : ℕ → Option (ℕ × Text)
  flush : Option Text
  rename : Option Text
  /-- Whether a half-written file can be removed. -/
  removes : Bool

/-- The most an asset's body may have: a little over its declared size, or 8 GiB where none
is declared. -/
def PlatformAsset.maxBytes (a : PlatformAsset) : ℕ :=
  if 0 < a.size then (a.size + 1024) % 2 ^ 64 else 8 * 1024 * 1024 * 1024

/-- Write the chunks of a body, which follow `hashed`, to the temporary file;
what was hashed in the end. -/
def writeChunks (run : AssetRun) (asset : PlatformAsset) (tmp : Text) (i : ℕ)
    (hashed : Bytes) : List Bytes → Program Staging Text Bytes
  | [] => pure hashed
  | chunk :: chunks =>
    if asset.maxBytes < hashed.length + chunk.length then
      throw "download exceeded the expected size — aborting".toList
    else match run.writeAll i with
      | some (n, e) => do
        modify fun s => s.write tmp (some (hashed ++ chunk.take n))
        throw e
      | none => do
        modify fun s => s.write tmp (some (hashed ++ chunk))
        writeChunks run asset tmp (i + 1) (hashed ++ chunk) chunks

/-- Stream a body to the temporary file, and compare its digest with the one
the asset names. -/
def streamAsset (run : AssetRun) (asset : PlatformAsset) (tmp : Text) (body : Body) :
    Program Staging Text Unit := do
  attempt run.createTmp
  modify fun s => s.write tmp (some [])
  let hashed ← writeChunks run asset tmp 0 [] body.chunks
  attempt (body.broken.map ("download: ".toList ++ ·))
  attempt run.flush
  let got := hexEncode (L.sha256 hashed)
  if !eqIgnoreAsciiCase got asset.sha256.trim then
    throw ("integrity check failed: expected ".toList ++ asset.sha256 ++ ", got ".toList ++
      got ++ " — refusing to apply".toList)
  else pure ()

/-- Download an asset to the staging directory and reject it unless its digest
is the one the manifest names. What is returned is the name it is staged under. -/
def downloadVerified (net : Network) (run : AssetRun) (asset : PlatformAsset) :
    Program Staging Text Text := do
  ofExcept net.httpClient
  match net.send asset.url with
  | .error e => throw ("download: ".toList ++ e)
  | .ok resp =>
    if !resp.isSuccess then throw ("download: HTTP ".toList ++ resp.statusText)
    else match (run.fileName asset.name).filter (· ≠ []) with
      | none => throw ("unsafe asset name: ".toList ++ asset.name)
      | some safeName =>
        attempt run.createDir
        let tmp := safeName ++ ".part".toList
        match ← result (streamAsset L run asset tmp resp.body) with
        | .ok () =>
          attempt run.rename
          modify fun s => (s.write safeName (s.files tmp)).write tmp none
          pure safeName
        | .error e =>
          whenever run.removes (modify fun s => s.write tmp none)
          throw e

/-! ## Applying -/

/-- The operating systems that an update is applied differently on; on any other the user is
told where the new file is. -/
inductive Platform where
  | macos
  | windows
  | linux
  | other
  deriving DecidableEq, Repr

/-- What unpacking an archive leaves: every file with its own name, in the
order a walk of the directory meets them, and the files of the bundle at its
top, if there is one. -/
structure Unpacked where
  files : List (Text × Bytes)
  bundle : Option (List Bytes)

/-- What the system answers while an update is applied; the run is a function of these
answers and of the staging directory. -/
structure ApplyRun where
  platform : Platform
  /-- The last component of a path, when that is a plain name. -/
  fileName : Text → Option Text
  openStaged : Option Text
  readStaged : Option Text
  /-- What opening a file that is not there answers, and creating a directory
  where a file is. -/
  notFound : Text
  alreadyExists : Text
  currentExe : Except Text Text
  createDir : Option Text
  /-- The tool that unpacks: it cannot be started, it fails, or it leaves
  something. -/
  unpack : Bytes → Except Text (Option Unpacked)
  setExecutable : Option Text
  selfReplace : Option Text
  relaunch : Option Text
  /-- The `APPIMAGE` variable. -/
  appimage : Option Text
  /-- The bundle the running program is in. -/
  bundle : Option Text
  /-- The directory an AppImage or a bundle is in. -/
  parent : Text → Option Text
  isReadonly : Text → Bool
  copy : Option Text
  rename : Option Text
  moveOld : Option Text
  moveNew : Option Text
  ditto : Bool
  reopens : Bool
  spawn : Option Text

/-- What applying did, so that the caller knows whether to exit: a relaunch, an installer
that was started, a swap alone, or nothing but the path. -/
inductive ApplyOutcome where
  | relaunching
  | launchedInstaller
  | swappedButRelaunchFailed (reason : Text)
  | manual (path reason : Text)
  deriving DecidableEq, Repr

/-- Re-read the staged file and confirm its digest, since something else may have written to
it meanwhile. -/
def verifyFileSha256 (run : ApplyRun) (path expected : Text) : Program Staging Text Unit := do
  attempt (run.openStaged.map ("reopen staged: ".toList ++ ·))
  let s ← get
  match s.files path with
  | none => throw ("reopen staged: ".toList ++ run.notFound)
  | some data =>
    attempt run.readStaged
    if eqIgnoreAsciiCase (hexEncode (L.sha256 data)) expected then pure ()
    else throw "staged update no longer matches its signed hash — aborting".toList

end Libs

/-- Attempt an action on the staged file, and note what the file was at that moment. -/
def act (action : Action) (staged : Text) (installed : List Bytes) :
    Program Staging Text Unit :=
  modify fun s => { s with acted := s.acted ++ [⟨action, s.files staged, installed⟩] }

/-- Remove the staged file, whether or not it is there. -/
def removeStaged (staged : Text) : Program Staging Text Unit :=
  modify fun s => s.write staged none

/-- Make the directory an archive is unpacked in, which must not exist yet. -/
def createWork (run : ApplyRun) (work : Text) : Program Staging Text Unit := do
  let s ← get
  if (s.files work).isSome then throw run.alreadyExists
  else attempt run.createDir

/-- Relaunch the new copy, or report that it could not be; in that case the swap itself has
been made and stays. -/
def relaunchedOrFailed (run : ApplyRun) : ApplyOutcome :=
  match run.relaunch with
  | none => .relaunching
  | some e =>
    .swappedButRelaunchFailed ("couldn't start the updated app (".toList ++ e ++ ")".toList)

/-- Make the new program executable, where files have a bit for that. -/
def setExecutable (run : ApplyRun) : Program Staging Text Unit :=
  if run.platform = .windows then pure () else attempt run.setExecutable

/-- Unpack a staged archive, or fail where it is missing or malformed. -/
def extractArchive (run : ApplyRun) (staged : Text) : Program Staging Text Unpacked := do
  let s ← get
  match s.files staged with
  | none => throw "couldn't unpack the downloaded archive".toList
  | some data =>
    match run.unpack data with
    | .ok (some unpacked) => pure unpacked
    | .ok none => throw "couldn't unpack the downloaded archive".toList
    | .error e => throw ("couldn't unpack the downloaded archive: ".toList ++ e)

/-- The names of archives, told by their extensions. -/
def isArchiveName (name : Text) : Bool :=
  ".zip".toList.isSuffixOf name || ".tar.gz".toList.isSuffixOf name ||
    ".tgz".toList.isSuffixOf name

/-- The first file of a given name, in the order in which the archive has them. -/
def Unpacked.findFileNamed (u : Unpacked) (name : Text) : Option Bytes :=
  (u.files.find? fun file => file.1 = name).map Prod.snd

/-- The program to put in place: the staged file, or the file of the running
program's name in it when it is an archive. -/
def portableBinary (run : ApplyRun) (exe staged : Text) :
    Program Staging Text (List Bytes) :=
  if isArchiveName staged.toAsciiLowercase then do
    createWork run "portable-extract".toList
    let unpacked ← extractArchive run staged
    match run.fileName exe with
    | none => throw "bad executable path".toList
    | some wanted =>
      match unpacked.findFileNamed wanted with
      | none =>
        throw ("the downloaded archive has no `".toList ++ wanted ++ "` inside".toList)
      | some binary =>
        setExecutable run
        pure [binary]
  else do
    let s ← get
    pure (s.files staged).toList

/-- Swap the running binary in place and relaunch, with the binary an archive holds or the
staged file itself. -/
def applySelfReplace (run : ApplyRun) (staged : Text) :
    Program Staging Text ApplyOutcome := do
  let exe ← ofExcept run.currentExe
  let binary ← portableBinary run exe staged
  act .swap staged binary
  removeStaged staged
  attempt (run.selfReplace.map ("replace: ".toList ++ ·))
  pure (relaunchedOrFailed run)

/-- Replace the AppImage and relaunch; only a Linux copy that runs as one can. -/
def applyAppimage (run : ApplyRun) (staged : Text) : Program Staging Text ApplyOutcome :=
  if run.platform ≠ .linux then throw "AppImage apply is Linux-only".toList
  else match run.appimage with
    | none => throw "APPIMAGE not set".toList
    | some appimage =>
      match run.parent appimage with
      | none => throw "bad APPIMAGE path".toList
      | some parent =>
        if run.isReadonly parent then
          pure (.manual staged "The AppImage lives in a read-only location.".toList)
        else do
          let s ← get
          attempt run.copy
          setExecutable run
          act .replaceAppImage staged (s.files staged).toList
          attempt run.rename
          removeStaged staged
          pure (relaunchedOrFailed run)

/-- Swap the bundle the running program is in and reopen it; on another platform and outside
of a bundle it is refused. -/
def applyMacos (run : ApplyRun) (staged : Text) : Program Staging Text ApplyOutcome :=
  if run.platform ≠ .macos then throw "macOS apply is macOS-only".toList
  else do
    let _ ← ofExcept run.currentExe
    match run.bundle with
    | none => throw "not running from a .app bundle".toList
    | some bundle =>
      match run.parent bundle with
      | none => throw "bad bundle path".toList
      | some parent =>
        if run.isReadonly parent then
          pure (.manual staged ("Atlas is installed somewhere it can't update itself".toList ++
            " (try dragging the new app in).".toList))
        else
          createWork run "mac-extract".toList
          let s ← get
          match (s.files staged).map run.unpack with
          | none => throw "unzip failed".toList
          | some (.error e) => throw ("unzip: ".toList ++ e)
          | some (.ok none) => throw "unzip failed".toList
          | some (.ok (some unpacked)) =>
            match unpacked.bundle with
            | none => throw "no .app inside the downloaded archive".toList
            | some newApp =>
              attempt (run.moveOld.map ("move old bundle: ".toList ++ ·))
              act .swap staged newApp
              attempt (if run.ditto then none
                else run.moveNew.map ("install new bundle: ".toList ++ ·))
              removeStaged staged
              pure (if run.reopens then .relaunching
                else .swappedButRelaunchFailed
                  "the update is installed but Atlas couldn't reopen itself".toList)

/-- Launch the installer; only a Windows copy can. -/
def applyWindowsInstaller (run : ApplyRun) (staged : Text) :
    Program Staging Text ApplyOutcome :=
  if run.platform ≠ .windows then throw "installer apply is Windows-only".toList
  else do
    let s ← get
    act .launchInstaller staged (s.files staged).toList
    attempt (run.spawn.map ("launch installer: ".toList ++ ·))
    pure .launchedInstaller

/-- Apply a staged file that is verified, the way its flavor is. -/
def applyVerified (run : ApplyRun) (flavor : Flavor) (staged : Text) :
    Program Staging Text ApplyOutcome :=
  match flavor with
  | .macApp => applyMacos run staged
  | .winInstaller => applyWindowsInstaller run staged
  | .winPortable => applySelfReplace run staged
  | .linuxPortable => applySelfReplace run staged
  | .linuxAppImage => applyAppimage run staged
  | .managed =>
    pure (.manual staged "This build is managed by your system package manager.".toList)

/-- Apply a verified update. The staged file is hashed again before anything is
done with it. -/
def apply (L : UpdateLibs) (run : ApplyRun) (info : UpdateInfo) (staged : Text) :
    Program Staging Text ApplyOutcome := do
  verifyFileSha256 L run staged info.asset.sha256.trim
  applyVerified run info.flavor staged

end Atlas
