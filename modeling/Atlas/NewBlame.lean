import Atlas.AttemptRule
import Atlas.Partials
import Atlas.Records

/-!
# Whom a download blames

What a call of `download_artifact` adds to the record of a source, it adds where it blames
the source (`downloadArtifact_recordedSince`); and it blames a source of its plan only, for
an attempt at it that ended with an error about bytes (`downloadArtifact_blames`). So a
source is safe from a call whatever the other sources do, as long as none of its own attempts
can end so (`downloadArtifact_unharmed`).
-/

namespace Atlas

open Text Program

variable {D : Digests} {t : Target}

/-! ## The record of a source -/

/-- Nothing was put on record against a source: no integrity failure, no ban, and nothing of
it in quarantine. -/
structure Unharmed (sourceId : Text) (d d' : Disk) : Prop where
  failures : (Db.getSourceHealth sourceId d'.sourceHealth).integrityFailures =
    (Db.getSourceHealth sourceId d.sourceHealth).integrityFailures
  banned : (Db.getSourceHealth sourceId d'.sourceHealth).banned = true →
    (Db.getSourceHealth sourceId d.sourceHealth).banned = true
  quarantine : d'.quarantine.filter (fun q => q.sourceId = some sourceId) =
    d.quarantine.filter fun q => q.sourceId = some sourceId

/-- **The record of a source after one more result**: its own is updated. -/
theorem Db.getSourceHealth_recordSourceResult (sourceId sourceId' : Text)
    (success integrity : Bool) (now : ℕ) (rows : List SourceHealth) :
    getSourceHealth sourceId' (recordSourceResult sourceId success integrity now rows) =
      if sourceId = sourceId' then
        updateHealth success integrity now (getSourceHealth sourceId' rows)
      else getSourceHealth sourceId' rows := by
  unfold getSourceHealth recordSourceResult
  by_cases hany : rows.any (fun row => row.sourceId = sourceId) = true
  · rw [if_pos hany, List.find?_map]
    have hcomp : ((fun row : SourceHealth => decide (row.sourceId = sourceId')) ∘
        fun row => if row.sourceId = sourceId then updateHealth success integrity now row
          else row) = fun row => decide (row.sourceId = sourceId') := by
      funext row
      show decide ((if row.sourceId = sourceId then updateHealth success integrity now row
        else row).sourceId = sourceId') = _
      split <;> rfl
    rw [hcomp]
    cases hfind : rows.find? (fun row => row.sourceId = sourceId') with
    | none =>
      have hne : sourceId ≠ sourceId' := by
        rintro rfl
        obtain ⟨row, hrow, hid⟩ := List.any_eq_true.mp hany
        exact List.find?_eq_none.mp hfind row hrow hid
      rw [if_neg hne]
      rfl
    | some row =>
      have hid : row.sourceId = sourceId' := by simpa using List.find?_some hfind
      show (if row.sourceId = sourceId then updateHealth success integrity now row else row) = _
      rw [hid]
      by_cases hsame : sourceId = sourceId'
      · rw [if_pos hsame, if_pos hsame.symm]
        rfl
      · rw [if_neg hsame, if_neg (Ne.symm hsame)]
        rfl
  · rw [if_neg hany, List.find?_append]
    by_cases hsame : sourceId = sourceId'
    · subst hsame
      have hnone : rows.find? (fun row => decide (row.sourceId = sourceId)) = none := by
        rw [List.find?_eq_none]
        exact fun row hrow hid => hany (List.any_eq_true.mpr ⟨row, hrow, hid⟩)
      rw [if_pos rfl, hnone]
      cases success <;> cases integrity <;> simp [updateHealth]
    · rw [if_neg hsame, List.find?_cons_of_neg (by simpa using hsame), List.find?_nil,
        Option.or_none]

namespace Unharmed

variable {sourceId : Text} {d d' : Disk}

theorem refl (sourceId : Text) (d : Disk) : Unharmed sourceId d d := ⟨rfl, id, rfl⟩

/-- A success, or an ordinary failure, harms nobody. -/
theorem recordResult (h : Unharmed sourceId d d') (other : Text) (success : Bool) (now : ℕ) :
    Unharmed sourceId d (recordResult other success false now d') := by
  have hhealth := Db.getSourceHealth_recordSourceResult other sourceId success false now
    d'.sourceHealth
  refine ⟨?_, fun hban => ?_, h.quarantine⟩
  · show (Db.getSourceHealth sourceId (Db.recordSourceResult _ _ _ _ _)).integrityFailures = _
    rw [hhealth]
    split
    · exact h.failures
    · exact h.failures
  · have hban' : (Db.getSourceHealth sourceId (Db.recordSourceResult other success false now
        d'.sourceHealth)).banned = true := hban
    rw [hhealth] at hban'
    split at hban'
    · cases success with
      | true => cases hban'
      | false => exact h.banned (by simpa [Db.updateHealth] using hban')
    · exact h.banned hban'

/-- A failure of another source for its bytes does not harm this one. -/
theorem of_other (h : Unharmed sourceId d d') {other : Text} (hne : other ≠ sourceId) (now : ℕ)
    {record : QuarantineRecord} (hrecord : record.sourceId = some other) {d'' : Disk}
    (hhealth : d''.sourceHealth =
      Db.recordSourceResult other false true now d'.sourceHealth)
    (hquarantine : d''.quarantine = d'.quarantine ++ [record]) :
    Unharmed sourceId d d'' := by
  have hsame : Db.getSourceHealth sourceId d''.sourceHealth =
      Db.getSourceHealth sourceId d'.sourceHealth := by
    rw [hhealth, Db.getSourceHealth_recordSourceResult, if_neg hne]
  refine ⟨hsame ▸ h.failures, fun hban => h.banned (hsame ▸ hban), ?_⟩
  rw [hquarantine, List.filter_append, h.quarantine]
  have hnot : ¬ (record.sourceId = some sourceId) := by
    rw [hrecord]
    exact fun heq => hne (Option.some.inj heq)
  rw [List.filter_cons_of_neg (by simpa using hnot), List.filter_nil, List.append_nil]

end Unharmed

/-- Since some store, everything that was put on record against a source was put there where
it was blamed. -/
def RecordedSince (d₀ d : Disk) : Prop :=
  ∃ events, d.trace = d₀.trace ++ events ∧
    ∀ sourceId, (∀ cells, Event.blamed sourceId cells ∉ events) → Unharmed sourceId d₀ d

theorem recordFailure_recordedSince {d₀ : Disk} (t : Target) (e : Error) (now : ℕ) :
    Keeps (RecordedSince d₀) (recordFailure t e now) := by
  rintro d ⟨events, htrace, hsafe⟩
  unfold recordFailure
  rw [bind_apply, modify_apply, andThen_ok]
  cases hblames : e.blames with
  | false =>
    rw [whenever_false Bool.false_ne_true]
    exact ⟨events, htrace, fun s hs => (hsafe s hs).recordResult _ _ _⟩
  | true =>
    rw [whenever_true rfl]
    refine ⟨events ++ [.blamed t.sourceId ((d.temps t.temp).getD [])], ?_, fun s hs => ?_⟩
    · show d.trace ++ [_] = _
      rw [htrace, List.append_assoc]
      rfl
    · have hne : t.sourceId ≠ s := by
        rintro rfl
        exact hs _ (List.mem_append_right _ List.mem_cons_self)
      exact (hsafe s fun cells hmem => hs cells (List.mem_append_left _ hmem)).of_other hne now
        rfl rfl rfl

theorem recordedSince_undisturbed (d₀ : Disk) : Undisturbed (RecordedSince d₀) where
  temps _ _ := fun ⟨events, htrace, hsafe⟩ =>
    ⟨events, htrace, fun s hs => ⟨(hsafe s hs).failures, (hsafe s hs).banned,
      (hsafe s hs).quarantine⟩⟩
  downloads _ _ := fun ⟨events, htrace, hsafe⟩ =>
    ⟨events, htrace, fun s hs => ⟨(hsafe s hs).failures, (hsafe s hs).banned,
      (hsafe s hs).quarantine⟩⟩
  trace d more := fun ⟨events, htrace, hsafe⟩ => by
    refine ⟨events ++ more, ?_, fun s hs => ?_⟩
    · show d.trace ++ more = _
      rw [htrace, List.append_assoc]
    · have hsafe' := hsafe s fun cells hmem => hs cells (List.mem_append_left _ hmem)
      exact ⟨hsafe'.failures, hsafe'.banned, hsafe'.quarantine⟩
  failure := recordFailure_recordedSince
  cache _ _ := fun ⟨events, htrace, hsafe⟩ =>
    ⟨events, htrace, fun s hs => ⟨(hsafe s hs).failures, (hsafe s hs).banned,
      (hsafe s hs).quarantine⟩⟩
  success d sourceId now := fun ⟨events, htrace, hsafe⟩ =>
    ⟨events, htrace, fun s hs => (hsafe s hs).recordResult sourceId true now⟩

/-- **What a call puts on record against a source** it puts there where it blames it. -/
theorem downloadArtifact_recordedSince (maxAttempts : ℕ) (manifestId : Text)
    (artifact : Artifact) (run : DownloadRun) (d : Disk) :
    RecordedSince d (downloadArtifact D maxAttempts manifestId artifact run d).2 :=
  (recordedSince_undisturbed d).downloadArtifact maxAttempts manifestId artifact run d
    ⟨[], (List.append_nil _).symm, fun s _ => Unharmed.refl s d⟩

/-! ## Who is blamed -/

/-- An attempt at a source can end with an error about its bytes. -/
def Blames (D : Digests) (t : Target) (run : SourceRun) : Prop :=
  ∃ n d e, (streamOnce D t (run.attempts n) d).1 = .err e ∧ e.blames = true

/-- Since some trace, only sources of a kind were blamed: whatever was added to the trace
has no blame of anybody else. -/
def OnlyBlamed (kind : Text → Prop) (trace₀ : List Event) (d : Disk) : Prop :=
  ∃ events, d.trace = trace₀ ++ events ∧
    ∀ sourceId cells, Event.blamed sourceId cells ∈ events → kind sourceId

section Blaming

variable {kind : Text → Prop} {trace₀ : List Event} {d : Disk}

/-- Events that blame nobody blame nobody else. -/
theorem OnlyBlamed.append (h : OnlyBlamed kind trace₀ d) {more : List Event} {d' : Disk}
    (htrace : d'.trace = d.trace ++ more)
    (hmore : ∀ sourceId cells, Event.blamed sourceId cells ∈ more → kind sourceId) :
    OnlyBlamed kind trace₀ d' := by
  obtain ⟨events, hevents, hkind⟩ := h
  refine ⟨events ++ more, by rw [htrace, hevents, List.append_assoc], fun s cells hmem => ?_⟩
  obtain hmem | hmem := List.mem_append.mp hmem
  · exact hkind s cells hmem
  · exact hmore s cells hmem

theorem OnlyBlamed.of_trace (h : OnlyBlamed kind trace₀ d) {d' : Disk}
    (htrace : d'.trace = d.trace) : OnlyBlamed kind trace₀ d' := by
  have hnone : d'.trace = d.trace ++ [] := by rw [htrace, List.append_nil]
  exact h.append hnone fun _ _ hmem => nomatch hmem

theorem resumedNote_blames (t : Target) (d : Disk) (sourceId : Text) (cells : List Cell) :
    Event.blamed sourceId cells ∉ resumedNote t d := by
  unfold resumedNote
  split
  · exact List.not_mem_nil
  · simp

/-- An attempt blames nobody by itself. -/
theorem streamOnce_onlyBlamed (attempt : Attempt) :
    Keeps (OnlyBlamed kind trace₀) (streamOnce D t attempt) := by
  refine streamOnce_rule (H := fun _ _ _ _ _ d => OnlyBlamed kind trace₀ d) ?_ ?_ ?_ ?_ ?_ ?_
  · exact fun d e file hP _ _ =>
      hP.append rfl fun s cells hmem => absurd hmem (resumedNote_blames t d s cells)
  · intro d opening kept v hP hkept
    refine hP.append (List.append_assoc _ _ _) fun s cells hmem => ?_
    obtain hmem | hmem := List.mem_append.mp hmem
    · exact absurd hmem (resumedNote_blames t d s cells)
    · simp at hmem
  · intro opening kept ev evs st file d r d' hH _ hspec
    have hreceived : ∀ chunk landed,
        OnlyBlamed kind trace₀ (received t st file chunk landed d) :=
      fun chunk landed => hH.append rfl fun s cells hmem => by simp at hmem
    cases hspec with
    | cancelled => exact hH.of_trace rfl
    | interrupted => exact hH
    | refused => exact hreceived _ _
    | failed => exact hreceived _ _
    | died => exact hreceived _ _
    | @written chunk => exact fun _ _ => hreceived chunk chunk
    | @refreshed chunk => exact fun _ _ => (hreceived chunk chunk).of_trace rfl
  · exact fun _ _ _ _ _ hH _ _ => hH
  · exact fun _ _ _ _ _ _ hH _ _ _ => hH
  · exact fun _ _ _ _ _ _ _ hH _ hover => hH.of_trace hover.trace

/-- A segmented transfer blames nobody. -/
theorem streamSegmented_onlyBlamed (connections : ℕ) (run : SegmentedRun) :
    Keeps (OnlyBlamed kind trace₀) (streamSegmented D t connections run) := by
  refine streamSegmented_rule (W := OnlyBlamed kind trace₀) (fun _ => id)
    (fun d hd => hd.of_trace (presizeTemp_trace t d)) (fun d d' hd hspec => ?_)
    (fun d hd => ?_) (fun d r d' hd hover => hd.of_trace hover.trace) fun _ => id
  · have hreceived : ∀ offset taken landed,
        OnlyBlamed kind trace₀ (segmentReceived t offset taken landed d) :=
      fun offset taken landed => hd.append (segmentReceived_trace offset taken landed d)
        fun s cells hmem => by simp at hmem
    cases hspec with
    | kept => exact hd
    | wrote => exact hreceived _ _ _
    | refreshed => exact (hreceived _ _ _).of_trace rfl
  · refine hd.of_trace ?_
    show (truncateTo t.temp 0 d).trace = d.trace
    rw [truncateTo_zero]

/-- A failure blames the source it is recorded of, if it is about bytes. -/
theorem recordFailure_onlyBlamed {e : Error} (h : e.blames = true → kind t.sourceId)
    (now : ℕ) : Keeps (OnlyBlamed kind trace₀) (recordFailure t e now) := by
  intro d hd
  unfold recordFailure
  rw [bind_apply, modify_apply, andThen_ok]
  cases hblames : e.blames with
  | false =>
    rw [whenever_false Bool.false_ne_true]
    exact hd.of_trace rfl
  | true =>
    rw [whenever_true rfl]
    refine hd.append (show _ = d.trace ++ [.blamed t.sourceId ((d.temps t.temp).getD [])] from rfl)
      fun s cells hmem => ?_
    cases List.mem_singleton.mp hmem
    exact h hblames

/-- An attempt whose failure is recorded, if it fails. -/
theorem caught_onlyBlamed {run : SourceRun} (n : ℕ) :
    Triple (OnlyBlamed kind trace₀) (result (streamOnce D t (run.attempts n)))
      (fun r d => OnlyBlamed kind trace₀ d ∧
        ∀ e, r = .ok (.error e) → e.blames = true → Blames D t run) := by
  refine Triple.result fun d hd => ?_
  have hkeep := streamOnce_onlyBlamed (D := D) (t := t) (run.attempts n) d hd
  rcases hrun : streamOnce D t (run.attempts n) d with ⟨m | e | _, d'⟩
  · rw [hrun] at hkeep
    exact ⟨hkeep, fun e he => nomatch he⟩
  · rw [hrun] at hkeep
    refine ⟨hkeep, fun e' he hblames => ⟨n, d, e, by rw [hrun], ?_⟩⟩
    cases he
    exact hblames
  · rw [hrun] at hkeep
    exact ⟨hkeep, fun e he => nomatch he⟩

theorem attemptLoop_onlyBlamed {run : SourceRun} (h : Blames D t run → kind t.sourceId)
    (retries n : ℕ) : Keeps (OnlyBlamed kind trace₀) (attemptLoop D t run retries n) := by
  have hfailed : ∀ (e : Error) (now : ℕ) {x : Program Disk Error BlobMeta},
      Keeps (OnlyBlamed kind trace₀) x →
      Triple (fun d => OnlyBlamed kind trace₀ d ∧ (e.blames = true → Blames D t run))
        (recordFailure t e now >>= fun _ => x) (fun _ d => OnlyBlamed kind trace₀ d) :=
    fun e now x hx d hd =>
      Keeps.bind (recordFailure_onlyBlamed (fun hblames => h (hd.2 hblames)) now)
        (fun _ => hx) d hd.1
  induction retries generalizing n with
  | zero =>
    unfold attemptLoop
    refine Triple.bind (caught_onlyBlamed n) (fun r => ?_) (fun _ _ h => h.1) fun _ h => h.1
    cases r with
    | ok m => exact Triple.pure fun _ h => h.1
    | error e =>
      refine Triple.ite (fun _ => Triple.throw fun _ h => h.1) fun _ => ?_
      exact (hfailed e _ (Keeps.throw e)).conseq (fun _ h => ⟨h.1, h.2 e rfl⟩) fun _ _ => id
  | succ retries ih =>
    unfold attemptLoop
    refine Triple.bind (caught_onlyBlamed n) (fun r => ?_) (fun _ _ h => h.1) fun _ h => h.1
    cases r with
    | ok m => exact Triple.pure fun _ h => h.1
    | error e =>
      refine Triple.ite (fun _ => Triple.throw fun _ h => h.1) fun _ => ?_
      exact (hfailed e _ (Keeps.ite (ih (n + 1)) (Keeps.throw e))).conseq
        (fun _ h => ⟨h.1, h.2 e rfl⟩) fun _ _ => id

theorem truncateTo_onlyBlamed (temp : Text) : Keeps (OnlyBlamed kind trace₀)
    (modify (truncateTo temp 0) : Program Disk Error Unit) :=
  Keeps.modify fun d hd => hd.of_trace (by rw [truncateTo_zero])

theorem trySource_onlyBlamed {run : SourceRun} (h : Blames D t run → kind t.sourceId)
    (maxAttempts : ℕ) : Keeps (OnlyBlamed kind trace₀) (trySource D maxAttempts t run) := by
  unfold trySource
  cases run.preflight with
  | error e => exact Keeps.throw _
  | ok u =>
    refine Keeps.bind Keeps.get fun d => Keeps.ite ?_ (attemptLoop_onlyBlamed h _ 0)
    refine Keeps.bind (Keeps.result (streamSegmented_onlyBlamed _ _)) fun r => ?_
    cases r with
    | ok m => exact Keeps.pure m
    | error e =>
      exact Keeps.ite (Keeps.throw e) (Keeps.bind (truncateTo_onlyBlamed _) fun _ =>
        attemptLoop_onlyBlamed h _ 0)

theorem finishCancelled_onlyBlamed (discard : Bool) (downloadId temp : Text) :
    Keeps (OnlyBlamed kind trace₀) (finishCancelled discard downloadId temp) :=
  Keeps.ite (Keeps.bind (Keeps.modify fun _ hd => hd.of_trace rfl) fun _ => Keeps.throw _)
    (Keeps.bind (Keeps.modify fun _ hd => hd.of_trace rfl) fun _ => Keeps.throw _)

/-- **The loop over the sources** blames those that it tries. -/
theorem sourceLoop_onlyBlamed (ctx : LoopContext) {plan : List PlannedSource}
    (h : ∀ p ∈ plan, Blames D (ctx.target p.source) p.run → kind p.source.sourceId)
    (partialOwner : Option Text) (lastErr : Option Error) :
    Keeps (OnlyBlamed kind trace₀) (sourceLoop D ctx plan partialOwner lastErr) := by
  induction plan generalizing partialOwner lastErr with
  | nil =>
    exact Keeps.bind (Keeps.modify fun _ hd => hd.of_trace rfl) fun _ => Keeps.throw _
  | cons planned rest ih =>
    have hrest := fun owner err =>
      ih (fun p hp => h p (List.mem_cons_of_mem _ hp)) owner err
    refine Keeps.ite (finishCancelled_onlyBlamed _ _ _) (Keeps.bind Keeps.get fun d => ?_)
    refine Keeps.ite (hrest _ _) (Keeps.bind (Keeps.whenever fun _ =>
      truncateTo_onlyBlamed _) fun _ => ?_)
    refine Keeps.bind (Keeps.result (trySource_onlyBlamed (h planned List.mem_cons_self) _))
      fun r => ?_
    cases r with
    | ok m => exact Keeps.bind (Keeps.modify fun _ hd => hd.of_trace rfl) fun _ => Keeps.pure _
    | error e =>
      exact Keeps.ite (finishCancelled_onlyBlamed _ _ _)
        (Keeps.bind Keeps.get fun d => hrest _ _)

end Blaming

/-- **A call blames only sources of its plan**, of which an attempt ended with an error about
bytes, and nobody if the artifact is in the cache. -/
theorem downloadArtifact_blames (maxAttempts : ℕ) (manifestId : Text) (artifact : Artifact)
    (run : DownloadRun) (d : Disk) :
    OnlyBlamed (fun sourceId => cachedBlake3 d.cache artifact = none ∧
      ∃ p ∈ run.plan, p.source.sourceId = sourceId ∧
        Blames D ((slotOf D manifestId artifact (cachedChunkTree D d.cache artifact)).target
          p.source) p.run) d.trace
      (downloadArtifact D maxAttempts manifestId artifact run d).2 := by
  have hstart : ∀ kind, OnlyBlamed kind d.trace d :=
    fun kind => ⟨[], (List.append_nil _).symm, fun _ _ hmem => nomatch hmem⟩
  unfold downloadArtifact
  rw [bind_apply, get_apply, andThen_ok]
  cases hcached : cachedBlake3 d.cache artifact with
  | some blake3 => exact (hstart _).of_trace rfl
  | none =>
    dsimp only
    split
    · exact hstart _
    · split
      · exact hstart _
      · unfold transferArtifact
        simp only [bind_apply, modify_apply, get_apply, andThen_ok]
        rw [← bind_apply]
        refine Keeps.bind (I := OnlyBlamed _ d.trace) ?_ (fun owner => sourceLoop_onlyBlamed
          ⟨manifestId, artifact, _, _, _, _, _, _⟩
          (fun p hp hblames => ⟨trivial, p, hp, rfl, hblames⟩) owner none) _ ((hstart _).of_trace rfl)
        unfold adoptPartial
        exact Keeps.bind Keeps.get fun _ => Keeps.bind (Keeps.whenever fun _ =>
          truncateTo_onlyBlamed _) fun _ => Keeps.pure _

/-- **A source whose attempts cannot end with an error about bytes is safe** from a call. -/
theorem downloadArtifact_unharmed (maxAttempts : ℕ) (manifestId : Text) (artifact : Artifact)
    (run : DownloadRun) (d : Disk) {sourceId : Text}
    (h : cachedBlake3 d.cache artifact = none → ∀ p ∈ run.plan, p.source.sourceId = sourceId →
      ¬ Blames D ((slotOf D manifestId artifact (cachedChunkTree D d.cache artifact)).target
        p.source) p.run) :
    Unharmed sourceId d (downloadArtifact D maxAttempts manifestId artifact run d).2 := by
  obtain ⟨events, htrace, hsafe⟩ :=
    downloadArtifact_recordedSince (D := D) maxAttempts manifestId artifact run d
  obtain ⟨events', htrace', hblamed⟩ :=
    downloadArtifact_blames (D := D) maxAttempts manifestId artifact run d
  have hsame : events = events' := List.append_cancel_left (htrace.symm.trans htrace')
  refine hsafe sourceId fun cells hmem => ?_
  obtain ⟨hcached, p, hp, hid, hblames⟩ := hblamed sourceId cells (hsame ▸ hmem)
  exact h hcached p hp hid hblames

end Atlas
