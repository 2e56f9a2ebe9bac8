import Atlas.NewBlame
import Atlas.SourceVisits

/-!
# Bad bytes in quarantine

When a stream fails for its bytes, the partial is moved into a directory of the quarantine,
under the first characters of the BLAKE3 that the artifact declares, or of the SHA-256. An
artifact need not declare either: the small files of a bundle have no digest but the object
id of git. Then there is no name to move the file to, the move fails, and so does the
recording of it: the bad bytes stay where the next attempt finds them
(`visitSource_quarantines_iff`).
-/

namespace Atlas

open Text Program Session

variable {D : Digests} {t : Target} {visit : SourceVisit}

/-- What is asked of a source's failure for its bytes: `rows` are the rows of the quarantine
before, and `r` and `s'` how the visit ends. -/
structure Quarantined (t : Target) (rows : List QuarantineRow) (f : StreamFailure)
    (r : Exit Error BlobMeta) (s' : Session) : Prop where
  temp : s'.disk.temps t.temp = none
  kept : ∃ path, "quarantine/".toList <+: path ∧
    s'.quarantine = rows ++
      [⟨t.downloadId, t.artifact.path, some t.sourceId, f.error.display, path⟩] ∧
    ∀ cells, f.cells = some cells → s'.files path = some cells
  banned : (s'.health t.sourceId).banned = true
  error : r = .err f.error

/-! ## The label -/

/-- A label is a name exactly when there is a digest to take it from. -/
theorem namesFile_quarantineLabel_iff {artifact : Artifact}
    (h : validateArtifact artifact = .ok ()) :
    namesFile (quarantineLabel artifact) = true ↔
      artifact.hashes.hasBlake3 = true ∨ artifact.hashes.hasSha256 = true := by
  have hhex : ∀ digest : Text, digest.isEmpty = false → digest.all isAsciiHexdigit = true →
      namesFile (short digest) = true := by
    intro digest hne hall
    cases digest with
    | nil => cases hne
    | cons c rest =>
      have hc : isAsciiHexdigit c = true := List.all_eq_true.mp hall c List.mem_cons_self
      have hdot : c ≠ '.' := fun heq => absurd (heq ▸ hc) (by decide)
      have hslash : (short (c :: rest)).contains '/' = false := by
        rw [Bool.eq_false_iff, Ne, List.contains_iff_mem]
        intro hmem
        exact absurd (List.all_eq_true.mp hall _ (List.mem_of_mem_take hmem)) (by decide)
      have hcons : short (c :: rest) = c :: rest.take 11 := rfl
      unfold namesFile
      rw [hslash, hcons]
      have hne (tail : Text) : decide (c :: rest.take 11 ≠ '.' :: tail) = true :=
        decide_eq_true fun heq => hdot (List.cons.inj heq).1
      show (true && decide (c :: rest.take 11 ≠ ['.']) &&
        decide (c :: rest.take 11 ≠ ['.', '.']) && true) = true
      rw [hne, hne]
      rfl
  obtain ⟨hblake3, hsha256⟩ := validateHexDigest_of_validateArtifact h
  unfold quarantineLabel
  cases hb : artifact.hashes.hasBlake3 with
  | true =>
    have hvalid := validateHexDigestLen_iff.mp (hblake3 hb)
    exact iff_of_true (hhex _ (Bool.not_eq_eq_eq_not.mp hb) hvalid.2) (Or.inl rfl)
  | false =>
    cases hs : artifact.hashes.hasSha256 with
    | true =>
      have hvalid := validateHexDigestLen_iff.mp (hsha256 hs)
      exact iff_of_true (hhex _ (Bool.not_eq_eq_eq_not.mp hs) hvalid.2) (Or.inr rfl)
    | false =>
      have hnil : artifact.hashes.sha256 = [] := List.isEmpty_iff.mp (Bool.not_eq_eq_eq_not.mp hs)
      rw [if_neg Bool.false_ne_true, hnil]
      exact iff_of_false (by decide) (by simp)

/-! ## The move -/

/-- **Where a file can be moved**, or where there is none, the quarantine has it, and has it
on record. -/
theorem quarantinePartial_moved (e : Error) (move : Move) {s : Session}
    (h : namesFile (quarantineLabel t.artifact) = true ∨ s.disk.temps t.temp = none) :
    ∃ s' path, quarantinePartial t e move s = (.ok (), s') ∧
      "quarantine/".toList <+: path ∧ s'.disk.temps t.temp = none ∧
      s'.disk.sourceHealth = s.disk.sourceHealth ∧ s'.failures = s.failures ∧
      s'.quarantine = s.quarantine ++
        [⟨t.downloadId, t.artifact.path, some t.sourceId, e.display, path⟩] ∧
      ∀ cells, s.disk.temps t.temp = some cells → s'.files path = some cells := by
  have hdir : ∀ rest : Text, "quarantine/".toList <+: "quarantine/".toList ++ t.downloadId ++
      "-".toList ++ (toString move.millis).toList ++ "-".toList ++ (toString s.seq).toList ++
      rest := by
    intro rest
    simp only [List.append_assoc]
    exact List.prefix_append _ _
  cases htemp : s.disk.temps t.temp with
  | none =>
    have hnoted : (s.disk.note (.blamed t.sourceId [])).temps t.temp = none := htemp
    unfold quarantinePartial quarantineFile newQuarantineDir
    simp only [bind_apply, get_apply, modify_apply, pure_apply, andThen_ok, onDisk, htemp,
      Option.getD_none, hnoted]
    refine ⟨_, _, rfl, ?_, hnoted, rfl, rfl, rfl, fun cells hcells => by cases hcells⟩
    rw [List.append_assoc]
    exact hdir _
  | some cells =>
    have hlabel := h.resolve_right (by rw [htemp]; exact Option.some_ne_none cells)
    have hnoted : (s.disk.note (.blamed t.sourceId cells)).temps t.temp = some cells := htemp
    unfold quarantinePartial quarantineFile newQuarantineDir
    simp only [bind_apply, get_apply, modify_apply, pure_apply, andThen_ok, onDisk, htemp,
      Option.getD_some, hnoted, if_pos hlabel]
    refine ⟨_, _, rfl, ?_, Function.update_self .., rfl, rfl, rfl, ?_⟩
    · rw [List.append_assoc]
      exact hdir _
    · rintro _ ⟨⟩
      exact Function.update_self ..

/-- **Without a name to be moved to, it is not.** -/
theorem quarantinePartial_refused (e : Error) (move : Move) {s : Session} {cells : List Cell}
    (h : namesFile (quarantineLabel t.artifact) = false)
    (htemp : s.disk.temps t.temp = some cells) :
    ∃ s' path, quarantinePartial t e move s = (.err (.fs path move.refusal), s') ∧
      s'.failures = s.failures := by
  have hnoted : (s.disk.note (.blamed t.sourceId cells)).temps t.temp = some cells := htemp
  unfold quarantinePartial quarantineFile newQuarantineDir
  simp only [bind_apply, get_apply, modify_apply, pure_apply, andThen_ok, onDisk, htemp,
    Option.getD_some, hnoted, h]
  exact ⟨_, _, rfl, rfl⟩

/-! ## The attempts -/

/-- Each failure for bad bytes that is added to the failures is dealt with exactly if there
was a digest to name the file by, or no file. -/
def DealtWith (t : Target) (rows : List QuarantineRow) (failures : List StreamFailure)
    (ended : Exit Error BlobMeta × Session) : Prop :=
  ∃ new, ended.2.failures = failures ++ new ∧ ∀ f ∈ new, f.error.blames = true →
    (Quarantined t rows f ended.1 ended.2 ↔
      t.artifact.hashes.hasBlake3 = true ∨ t.artifact.hashes.hasSha256 = true ∨ f.cells = none)

/-- Nothing is added. -/
theorem DealtWith.of_eq {rows : List QuarantineRow} {failures : List StreamFailure}
    {ended : Exit Error BlobMeta × Session} (h : ended.2.failures = failures) :
    DealtWith t rows failures ended :=
  ⟨[], by rw [h, List.append_nil], List.forall_mem_nil _⟩

/-- A failure that blames nobody comes first. -/
theorem DealtWith.cons {rows : List QuarantineRow} {failures : List StreamFailure}
    {ended : Exit Error BlobMeta × Session} {f : StreamFailure} (hf : f.error.blames = false)
    (h : DealtWith t rows (failures ++ [f]) ended) : DealtWith t rows failures ended := by
  obtain ⟨new, hnew, hall⟩ := h
  refine ⟨f :: new, by rw [hnew, List.append_assoc, List.singleton_append], ?_⟩
  refine List.forall_mem_cons.mpr ⟨fun hblames => ?_, hall⟩
  rw [hf] at hblames
  cases hblames

/-- **A failure for bad bytes**, which ends the attempts. -/
theorem quarantinePartial_dealtWith (hvalid : validateArtifact t.artifact = .ok ()) {e : Error}
    (hblames : e.blames = true) (now : ℕ) (move : Move) (s : Session) :
    DealtWith t s.quarantine s.failures
      ((onDisk (modify (recordResult t.sourceId false true now)) >>= fun _ =>
        quarantinePartial t e move >>= fun _ => throw e) (noteFailure e t.temp s)) := by
  have hlabel := namesFile_quarantineLabel_iff hvalid
  have hdigest : ∀ {p : Prop}, (t.artifact.hashes.hasBlake3 = true ∨
      t.artifact.hashes.hasSha256 = true ∨ p) ↔
        namesFile (quarantineLabel t.artifact) = true ∨ p := by
    intro p
    rw [hlabel, or_assoc]
  -- the store the partial is quarantined in
  let s₁ : Session := { noteFailure e t.temp s with
    disk := recordResult t.sourceId false true now s.disk }
  have hrun : (onDisk (modify (recordResult t.sourceId false true now)) >>= fun _ =>
      quarantinePartial t e move >>= fun _ => (throw e : Program Session Error BlobMeta))
        (noteFailure e t.temp s) = andThen (fun _ => throw e) (quarantinePartial t e move s₁) :=
    rfl
  rw [hrun]
  by_cases hmoves : namesFile (quarantineLabel t.artifact) = true ∨ s.disk.temps t.temp = none
  · obtain ⟨s', path, hquarantine, hpath, htemp, hhealth, hfailures, hrows, hfiles⟩ :=
      @quarantinePartial_moved t e move s₁ hmoves
    rw [hquarantine]
    refine ⟨[⟨e, s.disk.temps t.temp⟩], hfailures, List.forall_mem_singleton.mpr fun _ => ?_⟩
    have hbanned : (s'.health t.sourceId).banned = true := by
      unfold health
      rw [hhealth]
      show (Db.getSourceHealth t.sourceId (Db.recordSourceResult t.sourceId false true now
        s.disk.sourceHealth)).banned = true
      rw [Db.getSourceHealth_recordSourceResult, if_pos rfl]
      exact Bool.or_true _
    rw [hdigest]
    exact iff_of_true ⟨htemp, ⟨path, hpath, hrows, hfiles⟩, hbanned, rfl⟩ hmoves
  · obtain ⟨hlabel', htemp⟩ := not_or.mp hmoves
    obtain ⟨cells, hcells⟩ := Option.ne_none_iff_exists'.mp htemp
    obtain ⟨s', path, hquarantine, hfailures⟩ :=
      @quarantinePartial_refused t e move s₁ cells (Bool.eq_false_iff.mpr hlabel') hcells
    rw [hquarantine]
    refine ⟨[⟨e, s.disk.temps t.temp⟩], hfailures, List.forall_mem_singleton.mpr fun _ => ?_⟩
    rw [hdigest]
    refine iff_of_false (fun h => ?_) hmoves
    have herror : Error.fs path move.refusal = e := Exit.err.inj h.error
    rw [← herror] at hblames
    cases hblames

/-- Nothing of what a stream does is on record. -/
theorem visitStream_onRecord (attempt : Attempt) (gap : Gap) (s : Session) :
    (visitStream D t attempt gap s).2.failures = s.failures ∧
      (visitStream D t attempt gap s).2.quarantine = s.quarantine := by
  have hkeeps : Keeps (fun s' => s'.failures = s.failures ∧ s'.quarantine = s.quarantine)
      (visitStream D t attempt gap) := by
    refine Keeps.bind (Keeps.modify fun _ h => h) fun _ => Keeps.bind Keeps.get fun _ => ?_
    exact Keeps.bind (Keeps.whenever fun _ => Keeps.modify fun _ h => h) fun _ _ h => h
  exact hkeeps s ⟨rfl, rfl⟩

/-- **One attempt**, when what comes after a failure that blames nobody is in order. -/
theorem visitAttempt_dealtWith (hvalid : validateArtifact t.artifact = .ok ())
    (attempt : Attempt) (gap : Gap) (move : Move) {next : Error → Program Session Error BlobMeta}
    (hnext : ∀ e s, DealtWith t s.quarantine s.failures (next e s)) (s : Session) :
    DealtWith t s.quarantine s.failures ((result (visitStream D t attempt gap) >>= fun r =>
      match r with
      | .ok m => pure m
      | .error e => modify (noteFailure e t.temp) >>= fun _ =>
        if e = .cancelled then throw e
        else onDisk (modify (recordResult t.sourceId false e.blames attempt.now)) >>= fun _ =>
          if e.blames then quarantinePartial t e move >>= fun _ => throw e else next e) s) := by
  obtain ⟨hfailures, hrows⟩ := @visitStream_onRecord D t attempt gap s
  rw [bind_apply]
  unfold result
  rcases hstream : visitStream D t attempt gap s with ⟨m | e | _, s₁⟩
  · rw [hstream] at hfailures
    exact DealtWith.of_eq hfailures
  · rw [hstream] at hfailures hrows
    dsimp only at hfailures hrows
    rw [andThen_ok, ← hfailures, ← hrows]
    dsimp only
    rw [bind_apply, modify_apply, andThen_ok]
    by_cases hcancelled : e = .cancelled
    · rw [if_pos hcancelled]
      refine DealtWith.cons ?_ (DealtWith.of_eq rfl)
      rw [hcancelled]
      rfl
    · rw [if_neg hcancelled]
      cases hblames : e.blames with
      | true => exact quarantinePartial_dealtWith hvalid hblames attempt.now move s₁
      | false => exact DealtWith.cons hblames (hnext e _)
  · rw [hstream] at hfailures
    exact DealtWith.of_eq hfailures

/-- **All attempts.** -/
theorem visitAttempts_dealtWith (hvalid : validateArtifact t.artifact = .ok ())
    (retries n : ℕ) (s : Session) :
    DealtWith t s.quarantine s.failures (visitAttempts D t visit retries n s) := by
  have hthrow : ∀ (e : Error) (s : Session), DealtWith t s.quarantine s.failures
      ((throw e : Program Session Error BlobMeta) s) := fun _ _ => DealtWith.of_eq rfl
  induction retries generalizing n s with
  | zero =>
    unfold visitAttempts
    exact visitAttempt_dealtWith hvalid _ _ _ hthrow s
  | succ retries ih =>
    unfold visitAttempts
    refine @visitAttempt_dealtWith D t hvalid _ _ _
      (fun e => if e.isRetriable then visitAttempts D t visit retries (n + 1) else throw e)
      (fun e s => ?_) s
    by_cases hretriable : e.isRetriable = true
    · rw [if_pos hretriable]
      exact ih (n + 1) s
    · rw [if_neg hretriable]
      exact hthrow e s

/-- Nothing of what a segmented transfer does is on record. -/
theorem visitSegments_onRecord (s : Session) :
    (visitSegments D t visit s).2.failures = s.failures ∧
      (visitSegments D t visit s).2.quarantine = s.quarantine := by
  have hkeeps : Keeps (fun s' => s'.failures = s.failures ∧ s'.quarantine = s.quarantine)
      (visitSegments D t visit) := by
    exact Keeps.bind (Keeps.forM _ fun k _ => Keeps.modify fun _ h => h) fun _ _ h => h
  exact hkeeps s ⟨rfl, rfl⟩

/-- **A failure for bad bytes ends in the quarantine exactly if there is a name for the file,
or no file.** Whatever the streams of a valid artifact meet at a source, what others record
meanwhile and what was there of the artifact before: a failure that blames the source leaves
no partial, has its bytes in the quarantine and on record, has the source banned, and is the
error of the visit, if and only if the artifact declares a BLAKE3 or a SHA-256, or there was
no partial. -/
theorem visitSource_quarantines_iff (D : Digests) (t : Target) (visit : SourceVisit)
    (hvalid : validateArtifact t.artifact = .ok ()) (maxAttempts : ℕ) (s : Session) :
    ∃ new, (visitSource D maxAttempts t visit s).2.failures = s.failures ++ new ∧
      ∀ f ∈ new, f.error.blames = true →
        (Quarantined t s.quarantine f (visitSource D maxAttempts t visit s).1
            (visitSource D maxAttempts t visit s).2 ↔
          t.artifact.hashes.hasBlake3 = true ∨ t.artifact.hashes.hasSha256 = true ∨
            f.cells = none) := by
  show DealtWith t s.quarantine s.failures (visitSource D maxAttempts t visit s)
  have hattempts := fun s =>
    @visitAttempts_dealtWith D t visit hvalid (maxAttempts - 1) 0 s
  unfold visitSource
  cases visit.run.preflight with
  | error e => exact DealtWith.of_eq rfl
  | ok u =>
    dsimp only
    rw [bind_apply, get_apply, andThen_ok]
    by_cases hsegments : segmentable t visit.run s.disk = true
    · rw [if_pos hsegments, bind_apply]
      obtain ⟨hfailures, hrows⟩ := @visitSegments_onRecord D t visit s
      unfold result
      rcases hrun : visitSegments D t visit s with ⟨m | e | _, s₁⟩
      · rw [hrun] at hfailures
        exact DealtWith.of_eq hfailures
      · rw [hrun] at hfailures hrows
        dsimp only at hfailures hrows
        rw [andThen_ok, ← hfailures, ← hrows]
        dsimp only
        by_cases hcancelled : e = .cancelled
        · rw [if_pos hcancelled]
          exact DealtWith.of_eq rfl
        · rw [if_neg hcancelled]
          exact hattempts { s₁ with disk := truncateTo t.temp 0 s₁.disk }
      · rw [hrun] at hfailures
        exact DealtWith.of_eq hfailures
    · rw [if_neg hsegments]
      exact hattempts s

/-! ## A small file of a bundle -/

/-- A small file with some digests, three bytes long. -/
def configArtifact (hashes : Hashes) : Artifact where
  path := "config.json".toList
  sizeBytes := 3
  hashes := hashes
  chunking := none
  sources := []

/-- A first attempt at it, from a mirror, with nothing on disk before. -/
def configTarget (hashes : Hashes) : Target :=
  ⟨configArtifact hashes, .httpsMirror "https://mirror.example/config.json".toList .none,
    "d..part".toList, "d".toList, none⟩

/-- The digests of a large file on the hub: a SHA-256, so that its partial can be moved to
the quarantine under a name. -/
def namedHashes : Hashes := ⟨[], List.replicate 64 '0', []⟩

/-- The digests of a small one: the object id of git, so that the quarantine has no name for
its partial, and fails. -/
def namelessHashes : Hashes := ⟨[], [], List.replicate 40 '0'⟩

/-- The mirror sends a byte, and then more than is left, after which the engine sees that
the declared size was exceeded. -/
def overlongVisit : SourceVisit where
  run :=
    { preflight := .ok ()
      connections := 1
      rateLimited := false
      cancelled := false
      segmented := ⟨[], false, fun _ => false, 0⟩
      attempts := fun _ =>
        { cancelPolls := fun _ => false
          opened := .ok ⟨true, none,
            [⟨false, .ok [0], .written⟩, ⟨false, .ok [1, 2, 3], .written⟩], .endOfStream⟩
          now := 0 } }
  connections := fun _ => ⟨[], 0⟩
  gaps := fun _ => ⟨[], 0⟩
  moves := fun _ => ⟨0, "Is a directory".toList⟩

/-- How a download from that mirror ends, and the session it leaves. -/
def overlongEnd (hashes : Hashes) : Exit Error BlobMeta × Session :=
  visitSource ⟨id, id, id⟩ 3 (configTarget hashes) overlongVisit Session.empty

/-- What the mirror is blamed for, and what it had written: an integrity failure, and the
one byte that was on disk. -/
def overlongFailure : StreamFailure :=
  ⟨.transport (configTarget namedHashes).sourceId
      (.integrity "source sent more bytes than declared size".toList),
    some (cellsBy (configTarget namedHashes).sourceId [0])⟩

/-- A file that has a SHA-256 is quarantined under it. -/
theorem overlong_quarantined :
    (overlongEnd namedHashes).2.failures = [overlongFailure] ∧
      Quarantined (configTarget namedHashes) [] overlongFailure (overlongEnd namedHashes).1
        (overlongEnd namedHashes).2 := by
  have hfailures : (overlongEnd namedHashes).2.failures = [overlongFailure] := by decide +kernel
  obtain ⟨new, hnew, hdealt⟩ := visitSource_quarantines_iff ⟨id, id, id⟩
    (configTarget namedHashes) overlongVisit (by decide +kernel) 3 Session.empty
  have hone : [overlongFailure] = new := hfailures.symm.trans hnew
  have hmem : overlongFailure ∈ new := hone ▸ List.mem_cons_self
  exact ⟨hfailures, (hdealt _ hmem rfl).mpr (Or.inr (Or.inl (by decide +kernel)))⟩

/-- The failure leaves the partial where the next attempt resumes. -/
theorem overlong_left :
    ¬ ∀ (D : Digests) (t : Target) (visit : SourceVisit) (maxAttempts : ℕ) (s : Session),
      validateArtifact t.artifact = .ok () → s.failures = [] →
        ∀ f ∈ (visitSource D maxAttempts t visit s).2.failures, f.error.blames = true →
          Quarantined t s.quarantine f (visitSource D maxAttempts t visit s).1
            (visitSource D maxAttempts t visit s).2 := by
  intro h
  have hfailures : (overlongEnd namelessHashes).2.failures = [overlongFailure] := by decide +kernel
  have htemp : (overlongEnd namelessHashes).2.disk.temps (configTarget namelessHashes).temp =
      overlongFailure.cells := by decide +kernel
  have hleft := h ⟨id, id, id⟩ (configTarget namelessHashes) overlongVisit 3 Session.empty
    (by decide +kernel) rfl overlongFailure
    (show overlongFailure ∈ (overlongEnd namelessHashes).2.failures from
      hfailures ▸ List.mem_cons_self) rfl
  exact absurd (htemp.symm.trans hleft.temp) (Option.some_ne_none _)

end Atlas
