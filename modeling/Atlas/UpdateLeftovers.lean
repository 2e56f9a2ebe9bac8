import Atlas.UpdateChain

/-!
# What a failed update download leaves behind

A download is staged under a partial name, `name.part`, and takes its own name
when it is whole and its digest is right. A download that fails should leave
neither file. The partial is removed on one exit only, the one where the stream
itself failed: an exit before the stream does not look at the partial an earlier
call may have left, and the exit after it, when a file that was verified cannot
take its name, leaves the partial this call wrote
(`downloadVerified_leavesNothing_iff`).
-/

namespace Atlas

open Text Program

section Leftovers

variable {L : UpdateLibs} {net : Network} {run : AssetRun} {asset : PlatformAsset}

/-! ## The names an asset is staged under -/

/-- The name an asset is staged under, if the last component of its own name is
a plain one. -/
def AssetRun.stagedName (run : AssetRun) (asset : PlatformAsset) : Option Text :=
  (run.fileName asset.name).filter (· ≠ [])

/-- The name of the partial file, beside the one it is renamed to. -/
def partialName (name : Text) : Text := name ++ ".part".toList

theorem ne_partialName (name : Text) : name ≠ partialName name := fun h =>
  absurd (congrArg List.length h) (by simp [partialName])

/-- The staging directory holds no partial file of an asset, under the name that the client
would stage it with. -/
def AssetRun.NoPartial (run : AssetRun) (asset : PlatformAsset) (s : Staging) : Prop :=
  ∀ name, run.stagedName asset = some name → s.files (partialName name) = none

/-- A download leaves nothing behind: when it fails there is no partial file, and
no file under the asset's name that was not there before; when it returns, what it
returns has the asset's digest, and there is no partial file. -/
def AssetRun.LeavesNothing (L : UpdateLibs) (run : AssetRun) (asset : PlatformAsset)
    (before : Staging) : Exit Text Text × Staging → Prop
  | (.ok p, after) => (∃ b, after.files p = some b ∧ asset.Names L b) ∧
      run.NoPartial asset after
  | (.err _, after) => run.NoPartial asset after ∧
      ∀ name, run.stagedName asset = some name →
        before.files name = none → after.files name = none
  | (.crash, _) => False

/-! ## How a stream ends -/

/-- The chunks of a body can all be written: they are within the asset's size, and
no write fails. The writes are numbered from `i`, and `done` bytes precede them. -/
def AssetRun.Writes (run : AssetRun) (asset : PlatformAsset) (i done : ℕ) :
    List Bytes → Prop
  | [] => True
  | chunk :: chunks => done + chunk.length ≤ asset.maxBytes ∧ run.writeAll i = none ∧
      run.Writes asset (i + 1) (done + chunk.length) chunks

/-- A body streams to the end: the file can be created, the chunks written and
flushed, the connection does not break, and the digest is the asset's. -/
structure AssetRun.Streams (L : UpdateLibs) (run : AssetRun) (asset : PlatformAsset)
    (body : Body) : Prop where
  created : run.createTmp = none
  written : run.Writes asset 0 0 body.chunks
  whole : body.broken = none
  flushed : run.flush = none
  names : asset.Names L body.chunks.flatten

/-- **Writing the chunks** returns them all when they can all be written, and fails otherwise. -/
theorem writeChunks_ends {tmp : Text} (chunks : List Bytes) (i : ℕ) (hashed : Bytes)
    (s : Staging) :
    (run.Writes asset i hashed.length chunks ∧
      ∃ s', writeChunks run asset tmp i hashed chunks s =
        (.ok (hashed ++ chunks.flatten), s')) ∨
    (¬ run.Writes asset i hashed.length chunks ∧
      ∃ e s', writeChunks run asset tmp i hashed chunks s = (.err e, s')) := by
  induction chunks generalizing i hashed s with
  | nil =>
    refine Or.inl ⟨trivial, s, ?_⟩
    rw [List.flatten_nil, List.append_nil]
    rfl
  | cons chunk chunks ih =>
    unfold writeChunks
    by_cases hlong : asset.maxBytes < hashed.length + chunk.length
    · rw [if_pos hlong]
      exact Or.inr ⟨fun h => absurd h.1 (not_le.mpr hlong), _, s, rfl⟩
    rw [if_neg hlong]
    have hfits := not_lt.mp hlong
    cases hwrite : run.writeAll i with
    | some fault =>
      refine Or.inr ⟨fun h => ?_, fault.2, _, rfl⟩
      rw [h.2.1] at hwrite
      cases hwrite
    | none =>
      rw [List.flatten_cons, ← List.append_assoc]
      have hlength : (hashed ++ chunk).length = hashed.length + chunk.length :=
        List.length_append
      obtain ⟨hw, s', hs'⟩ | ⟨hw, e, s', hs'⟩ := ih (i + 1) (hashed ++ chunk)
        (s.write tmp (some (hashed ++ chunk)))
      · rw [hlength] at hw
        exact Or.inl ⟨⟨hfits, hwrite, hw⟩, s', hs'⟩
      · rw [hlength] at hw
        exact Or.inr ⟨fun h => hw h.2.2, e, s', hs'⟩

/-- A stream touches the temporary file only. -/
theorem writeChunks_keeps {tmp other : Text} (hother : other ≠ tmp) (content : Option Bytes)
    (chunks : List Bytes) (i : ℕ) (hashed : Bytes) :
    Keeps (fun s : Staging => s.files other = content)
      (writeChunks run asset tmp i hashed chunks) := by
  have hwrite (data : Option Bytes) : Keeps (fun s : Staging => s.files other = content)
      (modify fun s => s.write tmp data : Program Staging Text Unit) :=
    Keeps.modify fun s hs => (s.write_of_ne data hother).trans hs
  induction chunks generalizing i hashed with
  | nil => exact Keeps.pure _
  | cons chunk chunks ih =>
    refine Keeps.ite (Keeps.throw _) ?_
    cases run.writeAll i with
    | some fault => exact Keeps.bind (hwrite _) fun _ => Keeps.throw _
    | none => exact Keeps.bind (hwrite _) fun _ => ih (i + 1) (hashed ++ chunk)

theorem attempt_keeps {I : Staging → Prop} (failure : Option Text) :
    Keeps I (attempt failure) := by
  cases failure with
  | none => exact Keeps.pure ()
  | some e => exact Keeps.throw e

theorem streamAsset_keeps {tmp other : Text} (hother : other ≠ tmp) (content : Option Bytes)
    (body : Body) :
    Keeps (fun s : Staging => s.files other = content) (streamAsset L run asset tmp body) := by
  refine Keeps.bind (attempt_keeps _) fun _ => ?_
  refine Keeps.bind (Keeps.modify fun s hs => (s.write_of_ne _ hother).trans hs) fun _ => ?_
  refine Keeps.bind (writeChunks_keeps hother content _ _ _) fun hashed => ?_
  refine Keeps.bind (attempt_keeps _) fun _ => ?_
  refine Keeps.bind (attempt_keeps _) fun _ => ?_
  exact Keeps.ite (Keeps.throw _) (Keeps.pure ())

theorem attempt_some {e : Text} {failure : Option Text} (h : failure = some e) (s : Staging) :
    attempt failure s = (.err e, s) := by
  rw [h]
  rfl

theorem attempt_none {failure : Option Text} (h : failure = none) (s : Staging) :
    attempt failure s = (.ok (), s) := by
  rw [h]
  rfl

/-- A sequence fails where its first part does. -/
theorem bind_of_err {α β : Type} {x : Program Staging Text α} {f : α → Program Staging Text β}
    {s s' : Staging} {e : Text} (h : x s = (.err e, s')) : (x >>= f) s = (.err e, s') := by
  rw [bind_apply, h]
  rfl

/-- **A stream ends well when the body streams to the end, and fails otherwise.** -/
theorem streamAsset_ends (tmp : Text) (body : Body) (s : Staging) :
    (run.Streams L asset body ∧
      ∃ s', streamAsset L run asset tmp body s = (.ok (), s')) ∨
    (¬ run.Streams L asset body ∧
      ∃ e s', streamAsset L run asset tmp body s = (.err e, s')) := by
  unfold streamAsset
  cases hcreate : run.createTmp with
  | some e =>
    refine Or.inr ⟨fun h => ?_, e, s, bind_of_err rfl⟩
    rw [h.created] at hcreate
    cases hcreate
  | none =>
  rw [bind_of_ok (attempt_none rfl s), bind_of_ok (modify_apply _ _)]
  obtain ⟨hw, s', hs'⟩ | ⟨hw, e, s', hs'⟩ := @writeChunks_ends run asset tmp
    body.chunks 0 [] (s.write tmp (some []))
  swap
  · exact Or.inr ⟨fun h => hw h.written, e, s', bind_of_err hs'⟩
  rw [bind_of_ok hs', List.nil_append]
  cases hbroken : body.broken with
  | some e =>
    refine Or.inr ⟨fun h => ?_, "download: ".toList ++ e, s', bind_of_err rfl⟩
    rw [h.whole] at hbroken
    cases hbroken
  | none =>
  rw [Option.map_none, bind_of_ok (attempt_none rfl s')]
  cases hflush : run.flush with
  | some e =>
    refine Or.inr ⟨fun h => ?_, e, s', bind_of_err rfl⟩
    rw [h.flushed] at hflush
    cases hflush
  | none =>
  rw [bind_of_ok (attempt_none rfl s')]
  cases hnames : eqIgnoreAsciiCase (hexEncode (L.sha256 body.chunks.flatten))
      asset.sha256.trim with
  | false =>
    refine Or.inr ⟨fun h => ?_, _, s', rfl⟩
    have := h.names
    unfold PlatformAsset.Names at this
    rw [this] at hnames
    cases hnames
  | true => exact Or.inl ⟨⟨hcreate, hw, hbroken, hflush, hnames⟩, s', rfl⟩

/-! ## How a download ends -/

/-- A download gets as far as its stream: the client can be built, the request is
answered with a success, the asset has a plain name, and the staging directory can
be made. -/
structure AssetRun.Reaches (net : Network) (run : AssetRun) (asset : PlatformAsset)
    (resp : Response) (name : Text) : Prop where
  client : net.httpClient = .ok ()
  answered : net.send asset.url = .ok resp
  success : resp.isSuccess = true
  named : run.stagedName asset = some name
  created : run.createDir = none

/-- What happens from the stream on: the rename where it was taken, and the clean-up where
it was not. -/
def stageAsset (L : UpdateLibs) (run : AssetRun) (asset : PlatformAsset) (name : Text)
    (body : Body) : Program Staging Text Text := do
  match ← result (streamAsset L run asset (partialName name) body) with
  | .ok () =>
    attempt run.rename
    modify fun s => (s.write name (s.files (partialName name))).write (partialName name) none
    pure name
  | .error e =>
    whenever run.removes (modify fun s => s.write (partialName name) none)
    throw e

/-- **A download either reaches its stream**, and is then what happens from there,
**or fails and changes nothing.** -/
theorem downloadVerified_reaches (s : Staging) :
    (∃ resp name, run.Reaches net asset resp name ∧
      downloadVerified L net run asset s = stageAsset L run asset name resp.body s) ∨
    ((∀ resp name, ¬ run.Reaches net asset resp name) ∧
      ∃ e, downloadVerified L net run asset s = (.err e, s)) := by
  unfold downloadVerified
  -- the five ways out before anything is staged, in the code's order: no client, no answer, a
  -- status of failure, no file name, no directory
  cases hclient : net.httpClient with
  | error e =>
    refine Or.inr ⟨fun resp name h => ?_, e, bind_of_err rfl⟩
    rw [h.client] at hclient
    cases hclient
  | ok u =>
  rw [bind_of_ok (ofExcept_ok u s)]
  cases hsend : net.send asset.url with
  | error e =>
    refine Or.inr ⟨fun resp name h => ?_, _, rfl⟩
    rw [h.answered] at hsend
    cases hsend
  | ok resp =>
  dsimp only
  cases hsuccess : resp.isSuccess with
  | false =>
    refine Or.inr ⟨fun resp' name h => ?_, _, rfl⟩
    cases hsend.symm.trans h.answered
    rw [h.success] at hsuccess
    cases hsuccess
  | true =>
  rw [Bool.not_true, if_neg Bool.false_ne_true]
  cases hname : (run.fileName asset.name).filter (· ≠ []) with
  | none =>
    refine Or.inr ⟨fun resp' name h => ?_, _, rfl⟩
    cases hname.symm.trans h.named
  | some name =>
  dsimp only
  cases hdir : run.createDir with
  | some e =>
    refine Or.inr ⟨fun resp' name' h => ?_, e, bind_of_err rfl⟩
    rw [h.created] at hdir
    cases hdir
  | none =>
    rw [bind_of_ok (attempt_none rfl s)]
    exact Or.inl ⟨resp, name, ⟨hclient, hsend, hsuccess, hname, hdir⟩, rfl⟩

variable {name : Text} {body : Body}

/-- A stream that fails leaves the final name alone, and its partial is removed. -/
theorem stageAsset_of_not_streams (hremoves : run.removes = true)
    (h : ¬ run.Streams L asset body) (s : Staging) :
    ∃ e s', stageAsset L run asset name body s = (.err e, s') ∧
      s'.files (partialName name) = none ∧ s'.files name = s.files name := by
  obtain ⟨hs, -⟩ | ⟨-, e, s', hs'⟩ := @streamAsset_ends L run asset
    (partialName name) body s
  · exact absurd hs h
  have hresult : result (streamAsset L run asset (partialName name) body) s =
      (.ok (.error e), s') := by
    unfold result
    rw [hs']
  refine ⟨e, s'.write (partialName name) none, ?_, s'.write_self _ _, ?_⟩
  · unfold stageAsset
    rw [bind_of_ok hresult]
    dsimp only
    rw [whenever_true hremoves]
    rfl
  · have hkeeps : (streamAsset L run asset (partialName name) body s).2.files name =
        s.files name :=
      streamAsset_keeps (ne_partialName name) (s.files name) body s rfl
    rw [hs'] at hkeeps
    rw [Staging.write_of_ne _ _ (ne_partialName name)]
    exact hkeeps

/-- A stream that ends well leaves the partial with the asset's digest. -/
theorem result_of_streams (h : run.Streams L asset body) (s : Staging) :
    ∃ s', result (streamAsset L run asset (partialName name) body) s = (.ok (.ok ()), s') ∧
      ∃ b, s'.files (partialName name) = some b ∧ asset.Names L b := by
  obtain ⟨-, s', hs'⟩ | ⟨hs, -⟩ := @streamAsset_ends L run asset
    (partialName name) body s
  swap
  · exact absurd h hs
  have hnamed := @streamAsset_triple L run asset (partialName name) body s trivial
  rw [hs'] at hnamed
  refine ⟨s', ?_, hnamed.2⟩
  unfold result
  rw [hs']

/-- **A verified file that cannot take its name stays as a partial.** -/
theorem stageAsset_of_rename_fails {e : Text} (h : run.Streams L asset body)
    (hrename : run.rename = some e) (s : Staging) :
    ∃ s', stageAsset L run asset name body s = (.err e, s') ∧
      s'.files (partialName name) ≠ none := by
  obtain ⟨s', hs', b, hb, -⟩ := @result_of_streams _ _ _ name _ h s
  refine ⟨s', ?_, by rw [hb]; exact Option.some_ne_none b⟩
  unfold stageAsset
  rw [bind_of_ok hs']
  exact bind_of_err (attempt_some hrename s')

/-- A verified file that takes its name. -/
theorem stageAsset_of_renames (h : run.Streams L asset body) (hrename : run.rename = none)
    (s : Staging) :
    ∃ s', stageAsset L run asset name body s = (.ok name, s') ∧
      (∃ b, s'.files name = some b ∧ asset.Names L b) ∧
      s'.files (partialName name) = none := by
  obtain ⟨s', hs', b, hb, hnames⟩ := @result_of_streams _ _ _ name _ h s
  refine ⟨(s'.write name (s'.files (partialName name))).write (partialName name) none, ?_,
    ⟨b, ?_, hnames⟩, Staging.write_self _ _ _⟩
  · unfold stageAsset
    rw [bind_of_ok hs']
    dsimp only
    rw [bind_of_ok (attempt_none hrename s')]
    rfl
  · rw [Staging.write_of_ne _ _ (ne_partialName name), Staging.write_self]
    exact hb

/-! ## When nothing is left -/

/-- Nothing can be left behind: a file that was verified takes its name, and a
download that ends before its stream finds no partial of an earlier one. -/
structure AssetRun.CleanExit (L : UpdateLibs) (net : Network) (run : AssetRun)
    (asset : PlatformAsset) (s : Staging) : Prop where
  renames : ∀ resp name, run.Reaches net asset resp name →
    run.Streams L asset resp.body → run.rename = none
  fresh : (∀ resp name, ¬ run.Reaches net asset resp name) → run.NoPartial asset s

theorem noPartial_of_named {s : Staging} (hname : run.stagedName asset = some name)
    (h : s.files (partialName name) = none) : run.NoPartial asset s := by
  intro other hother
  cases hname.symm.trans hother
  exact h

/-- **A failed update download leaves nothing behind exactly when** the file it
verified, if it verified one, takes its name, and no partial of an earlier download
lies there when it ends before its stream. -/
theorem downloadVerified_leavesNothing_iff (hremoves : run.removes = true) (s : Staging) :
    run.LeavesNothing L asset s (downloadVerified L net run asset s) ↔
      run.CleanExit L net asset s := by
  obtain ⟨resp, name, hreach, hdownload⟩ | ⟨hnever, e, hdownload⟩ :=
    @downloadVerified_reaches L net run asset s
  swap
  · rw [hdownload]
    constructor
    · rintro ⟨hno, -⟩
      exact ⟨fun resp name h => absurd h (hnever resp name), fun _ => hno⟩
    · exact fun h => ⟨h.fresh hnever, fun _ _ => id⟩
  rw [hdownload]
  by_cases hstreams : run.Streams L asset resp.body
  swap
  · obtain ⟨e, s', hs', hpart, hfinal⟩ :=
      @stageAsset_of_not_streams _ _ _ name _ hremoves hstreams s
    rw [hs']
    constructor
    · rintro -
      refine ⟨fun resp' name' h hstreams' => ?_, fun h => absurd hreach (h resp name)⟩
      cases hreach.answered.symm.trans h.answered
      exact absurd hstreams' hstreams
    · rintro -
      refine ⟨noPartial_of_named hreach.named hpart, fun other hother hbefore => ?_⟩
      cases hreach.named.symm.trans hother
      exact hfinal.trans hbefore
  cases hrename : run.rename with
  | some e =>
    obtain ⟨s', hs', hpart⟩ := @stageAsset_of_rename_fails _ _ _ name _ _ hstreams hrename s
    rw [hs']
    constructor
    · exact fun h => absurd (h.1 name hreach.named) hpart
    · intro h
      rw [h.renames resp name hreach hstreams] at hrename
      cases hrename
  | none =>
    obtain ⟨s', hs', hnames, hpart⟩ :=
      @stageAsset_of_renames _ _ _ name _ hstreams hrename s
    rw [hs']
    constructor
    · rintro -
      exact ⟨fun _ _ _ _ => hrename, fun h => absurd hreach (h resp name)⟩
    · rintro -
      exact ⟨hnames, noPartial_of_named hreach.named hpart⟩

end Leftovers

/-! ## The release downloaded -/

section Sample

/-- A server with the asset of the release, whose body comes in one chunk. -/
def assetNetwork : Network where
  httpClient := .ok ()
  send url :=
    if url = "https://example.com/atlas".toList then
      .ok ⟨200, "200 OK".toList, ⟨[abc], none⟩⟩
    else .error "not found".toList

/-- A course of events in which every step of the system succeeds. -/
def sampleAssetRun : AssetRun where
  fileName path := some (path.rtakeWhile (· ≠ '/'))
  createDir := none
  createTmp := none
  writeAll _ := none
  flush := none
  rename := none
  removes := true

/-- A course of events in which the asset's name is taken by a directory. -/
def blockedAssetRun : AssetRun :=
  { sampleAssetRun with rename := some "Is a directory (os error 21)".toList }

/-- An empty staging directory, on which nothing was done. -/
def emptyStaging : Staging := ⟨fun _ => none, []⟩

/-- The download of the release leaves its file and nothing else. -/
theorem sampleAssetRun_leavesNothing :
    (downloadVerified sampleLibs assetNetwork sampleAssetRun sampleAsset emptyStaging).1 =
      .ok "atlas".toList ∧
    sampleAssetRun.LeavesNothing sampleLibs sampleAsset emptyStaging
      (downloadVerified sampleLibs assetNetwork sampleAssetRun sampleAsset emptyStaging) :=
  ⟨by decide +kernel, (downloadVerified_leavesNothing_iff rfl emptyStaging).mpr
    ⟨fun _ _ _ _ => rfl, fun _ _ _ => rfl⟩⟩

/-- **A verified download that cannot take its name leaves its partial.** -/
theorem blockedAssetRun_leaves_partial :
    blockedAssetRun.removes = true ∧
    ¬ blockedAssetRun.LeavesNothing sampleLibs sampleAsset emptyStaging
      (downloadVerified sampleLibs assetNetwork blockedAssetRun sampleAsset emptyStaging) := by
  refine ⟨rfl, fun h => ?_⟩
  have hpart : (downloadVerified sampleLibs assetNetwork blockedAssetRun sampleAsset
      emptyStaging).2.files "atlas.part".toList = some abc := by
    decide +kernel
  have hnone : blockedAssetRun.NoPartial sampleAsset (downloadVerified sampleLibs assetNetwork
      blockedAssetRun sampleAsset emptyStaging).2 := by
    generalize downloadVerified sampleLibs assetNetwork blockedAssetRun sampleAsset
      emptyStaging = r at h
    rcases r with ⟨p | e | _, s'⟩
    · exact h.2
    · exact h.1
    · exact h.elim
  have hfree := hnone "atlas".toList (by decide)
  exact Option.some_ne_none abc (hpart.symm.trans hfree)

end Sample

end Atlas
