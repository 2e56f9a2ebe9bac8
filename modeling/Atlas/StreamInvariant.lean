import Atlas.Stream

/-!
# The file, the counter and the verifier stay in step

Whatever a streaming attempt finds in the temp file, and whatever the stream
does, at the head of its read loop the temp holds exactly `bytesDone` bytes
and the verifier has been fed exactly those bytes, in order
(`LoopInvariant`). What is handed to `commitBlob` is therefore what was
verified.

The specifications below say what each part of an attempt can do to the
store, and every later result about transfers is derived from them:
`prepareResume_cases` for the validation of the prefix, `openStream_cases` for
everything before the first chunk, `streamStep_cases` for one turn of the
loop.
-/

namespace Atlas

open Text Program

variable {D : Digests} {t : Target}

/-! ## Validating the prefix -/

/-- A prefix read a buffer at a time is the prefix. -/
private theorem take_eq_take_append (file : Bytes) {k n : ℕ} (h : k ≤ n) :
    file.take n = file.take k ++
      (file.drop (file.take k).length).take (n - (file.take k).length) := by
  rw [List.length_take]
  by_cases hk : k ≤ file.length
  · rw [Nat.min_eq_left hk, ← List.take_add, Nat.add_sub_cancel' h]
  · have hfile : file.length ≤ k := Nat.le_of_not_le hk
    rw [Nat.min_eq_right hfile, List.drop_length, List.take_nil, List.append_nil,
      List.take_of_length_le hfile, List.take_of_length_le (hfile.trans h)]

/-- **A validated prefix was fed to the verifier**, all of it. -/
theorem readPrefix_eq_some {polls : ℕ → Bool} {v v' : StreamingVerifier} {file : Bytes}
    {remaining reads : ℕ} (h : readPrefix D polls v file remaining reads = .ok (some v')) :
    v.Fed D (file.take remaining) v' ∧ remaining ≤ file.length := by
  induction v, file, remaining, reads using readPrefix.induct D polls with
  | case1 v file reads =>
    rw [readPrefix, if_pos rfl] at h
    cases h
    exact ⟨.nil, Nat.zero_le _⟩
  | case2 v file remaining reads h0 hpoll =>
    rw [readPrefix, if_neg h0, if_pos hpoll] at h
    cases h
  | case3 v file remaining reads h0 hpoll buf hbuf =>
    rw [readPrefix, if_neg h0, if_neg hpoll, if_pos hbuf] at h
    cases h
  | case4 v file remaining reads h0 hpoll buf hbuf e hfeed =>
    rw [readPrefix, if_neg h0, if_neg hpoll, if_neg hbuf] at h
    simp only [buf] at hfeed
    rw [hfeed] at h
    cases h
  | case5 v file remaining reads h0 hpoll buf hbuf v₁ hfeed ih =>
    rw [readPrefix, if_neg h0, if_neg hpoll, if_neg hbuf] at h
    simp only [buf] at hfeed ih
    rw [hfeed] at h
    obtain ⟨hfed, hle⟩ := ih h
    have hlen : (file.take (min READ_BUFFER remaining)).length ≤ remaining := by
      rw [List.length_take]
      omega
    have htake := take_eq_take_append file (Nat.min_le_right READ_BUFFER remaining)
    rw [htake]
    refine ⟨(StreamingVerifier.Fed.single hfeed).trans hfed, ?_⟩
    rw [List.length_drop] at hle
    have hfile : (file.take (min READ_BUFFER remaining)).length ≤ file.length := by
      rw [List.length_take]
      exact Nat.min_le_right _ _
    omega

/-- What validating the prefix can come to: the prefix was fed to a fresh
verifier; or the temp is cut to nothing and the verifier is fresh; or the
user cancelled. -/
theorem prepareResume_cases (polls : ℕ → Bool) (want : ℕ) (d : Disk) :
    (∃ v, prepareResume D t polls want d = (.ok (v, want), d) ∧
      ((want = 0 ∧ v = t.fresh) ∨ ∃ file, d.temps t.temp = some file ∧
        want ≤ file.length ∧ t.fresh.Fed D ((bytesOf file).take want) v)) ∨
    prepareResume D t polls want d = (.ok (t.fresh, 0), truncateTo t.temp 0 d) ∨
    prepareResume D t polls want d = (.err .cancelled, d) := by
  unfold prepareResume
  by_cases h0 : want = 0
  · rw [if_pos h0, h0]
    exact Or.inl ⟨t.fresh, rfl, Or.inl ⟨rfl, rfl⟩⟩
  · rw [if_neg h0]
    cases hfile : d.temps t.temp with
    | none =>
      refine Or.inr (Or.inl ?_)
      simp only [bind_apply, get_apply, andThen_ok, hfile, modify_apply, pure_apply]
    | some file =>
      simp only [bind_apply, get_apply, andThen_ok, hfile]
      cases hread : readPrefix D polls t.fresh (bytesOf file) want 0 with
      | error u => exact Or.inr (Or.inr rfl)
      | ok o =>
        cases o with
        | none => exact Or.inr (Or.inl rfl)
        | some v =>
          obtain ⟨hfed, hle⟩ := readPrefix_eq_some hread
          rw [bytesOf, List.length_map] at hle
          exact Or.inl ⟨v, rfl, Or.inr ⟨file, rfl, hle, hfed⟩⟩

/-! ## Opening -/

/-- The partial an attempt means to resume, empty when there is none: a temp
that is already as long as the artifact, or any temp of an artifact of unknown
size, is discarded instead. -/
def resumable (t : Target) (d : Disk) : List Cell :=
  let file := (d.temps t.temp).getD []
  if 0 < file.length ∧ file.length < t.total then file else []

/-- What the trace remembers of it: that an attempt resumed a partial, or nothing. -/
def resumedNote (t : Target) (d : Disk) : List Event :=
  if resumable t d = [] then [] else [.resumed t.sourceId (resumable t d)]

/-- Whom the downloads row names as the writer of the partial; nobody when there is no row,
or the row has no source. -/
def rowOwner (t : Target) (d : Disk) : Option Text :=
  (Db.getDownload t.downloadId d.downloads).bind DownloadRow.sourceId

/-- Cutting a temp to nothing leaves it empty, if it is there at all. -/
theorem truncateTo_zero (temp : Text) (d : Disk) :
    truncateTo temp 0 d =
      { d with temps := Function.update d.temps temp ((d.temps temp).map fun _ => []) } := by
  unfold truncateTo
  cases h : d.temps temp with
  | none =>
    dsimp only [Option.map_none]
    rw [← h, Function.update_eq_self]
  | some file =>
    dsimp only
    rw [SparseFile.setLen_zero]
    rfl

/-- Opening a temp for writing creates it when it is not there. -/
theorem createTemp_eq (temp : Text) (d : Disk) :
    createTemp temp d =
      { d with temps := Function.update d.temps temp (some ((d.temps temp).getD [])) } := by
  unfold createTemp
  cases h : d.temps temp with
  | none => rfl
  | some file =>
    dsimp only [Option.getD]
    rw [← h, Function.update_eq_self]

/-- The store once the partial is claimed: the temp, if there is one, holds
what can be resumed. -/
def claimed (t : Target) (d : Disk) : Disk :=
  { d with
    temps := Function.update d.temps t.temp ((d.temps t.temp).map fun _ => resumable t d)
    trace := d.trace ++ resumedNote t d }

theorem claimed_temp (t : Target) (d : Disk) :
    (claimed t d).temps t.temp = (d.temps t.temp).map fun _ => resumable t d :=
  Function.update_self _ _ _

theorem claimed_temp_getD (t : Target) (d : Disk) :
    ((claimed t d).temps t.temp).getD [] = resumable t d := by
  rw [claimed_temp]
  cases h : d.temps t.temp with
  | none =>
    unfold resumable
    rw [h]
    rfl
  | some file => rfl

/-- **Claiming the partial keeps what can be resumed, and nothing else.** -/
theorem claimPartial_eq (t : Target) (d : Disk) :
    claimPartial t d = (.ok (resumable t d).length, claimed t d) := by
  have hlen : ((d.temps t.temp).getD []).length = d.tempLen t.temp := by
    unfold Disk.tempLen
    cases d.temps t.temp <;> rfl
  unfold claimed resumedNote resumable claimPartial
  simp only [bind_apply, get_apply, andThen_ok, hlen]
  generalize d.tempLen t.temp = n at hlen
  by_cases hresume : 0 < n ∧ n < t.total
  · have hkeep : ¬ ((0 < t.total ∧ t.total ≤ n) ∨ (t.total = 0 ∧ 0 < n)) := by omega
    have hwant : resumeLength t.total n = n := if_pos hresume
    rw [whenever_false hkeep, hwant, whenever_true hresume.1]
    cases h : d.temps t.temp with
    | none =>
      rw [h] at hlen
      exact absurd hlen hresume.1.ne
    | some file =>
      rw [h] at hlen
      have hne : file ≠ [] := List.length_pos_iff.mp (hlen.symm ▸ hresume.1)
      simp only [bind_apply, pure_apply, andThen_ok, modify_apply, Disk.note, if_pos hresume, h,
        Option.getD_some, Option.map_some, if_neg hne]
      rw [← h, Function.update_eq_self, show file.length = n from hlen]
  · have hwant : resumeLength t.total n = 0 := if_neg hresume
    rw [hwant, whenever_false (Nat.lt_irrefl 0)]
    simp only [if_neg hresume, if_true, List.append_nil, List.length_nil]
    by_cases hdiscard : (0 < t.total ∧ t.total ≤ n) ∨ (t.total = 0 ∧ 0 < n)
    · rw [whenever_true hdiscard]
      simp only [bind_apply, pure_apply, andThen_ok, modify_apply, truncateTo_zero]
    · rw [whenever_false hdiscard]
      simp only [bind_apply, pure_apply, andThen_ok]
      cases h : d.temps t.temp with
      | none =>
        rw [Option.map_none, ← h, Function.update_eq_self]
      | some file =>
        rw [h] at hlen
        have hnil : file = [] := List.length_eq_zero_iff.mp (by
          rw [show file.length = n from hlen]
          omega)
        rw [Option.map_some, ← hnil, ← h, Function.update_eq_self]

/-- What opening a stream can come to. Either it fails, with an error that
blames nobody; or the temp holds exactly the bytes the verifier was fed, which
are the resumed partial or nothing at all. Only the temp and the trace are touched. -/
inductive OpenSpec (D : Digests) (t : Target) (attempt : Attempt) (d : Disk) :
    Exit Error (Opening × StreamState) × Disk → Prop
  | failed {e : Error} {file : Option (List Cell)} (hblames : e.blames = false)
      (hfile : ∀ cells, file = some cells → cells = resumable t d ∨ cells = []) :
      OpenSpec D t attempt d (.err e, { d with
        temps := Function.update d.temps t.temp file
        trace := d.trace ++ resumedNote t d })
  | opened {opening : Opening} {kept : List Cell} {v : StreamingVerifier}
      (hopening : attempt.opened = .ok opening)
      (hkept : kept = resumable t d ∨ kept = [])
      (hfed : t.fresh.Fed D (bytesOf kept) v) :
      OpenSpec D t attempt d (.ok (opening, ⟨v, kept.length, 0⟩), { d with
        temps := Function.update d.temps t.temp (some kept)
        trace := d.trace ++ resumedNote t d ++
          [.opened t.sourceId (rowOwner t d) kept t.total opening] })

/-- A resumable partial is shorter than the artifact, or empty. -/
theorem min_length_resumable (t : Target) (d : Disk) :
    min (resumable t d).length t.total = (resumable t d).length := by
  unfold resumable
  dsimp only
  split
  · rename_i h
    exact Nat.min_eq_left h.2.le
  · exact Nat.zero_min _

/-- Where the stream starts is where it was asked to, or at 0. -/
theorem realign_cases (polls : ℕ → Bool) (opening : Opening) {kept : List Cell}
    (hkept : min kept.length t.total = kept.length) (v : StreamingVerifier) (d : Disk) :
    (min (opening.effectiveStart kept.length) t.total = kept.length ∧
      realign D t polls kept.length kept.length v d = (.ok v, d)) ∨
    (kept ≠ [] ∧ min (opening.effectiveStart kept.length) t.total = 0 ∧
      realign D t polls 0 kept.length v d = (.ok t.fresh, truncateTo t.temp 0 d)) := by
  by_cases hnil : kept.length = 0
  · have hstart : opening.effectiveStart kept.length = 0 := by
      rcases opening.effectiveStart_eq kept.length with h | h
      · rw [h, hnil]
      · exact h
    refine Or.inl ⟨by rw [hstart, hnil, Nat.zero_min], ?_⟩
    rw [realign, if_neg (fun h => h rfl)]
    rfl
  · rcases opening.effectiveStart_eq kept.length with h | h
    · refine Or.inl ⟨by rw [h, hkept], ?_⟩
      rw [realign, if_neg (fun h => h rfl)]
      rfl
    · refine Or.inr ⟨fun hk => hnil (by rw [hk]; rfl), by rw [h, Nat.zero_min], ?_⟩
      rw [realign, if_pos (Ne.symm hnil)]
      rfl

/-- Creating the temp and noting the stream, once the temp holds `kept`. -/
theorem note_opened {d₁ d : Disk} {kept : List Cell} {file : Option (List Cell)}
    (h₁ : d₁ = { d with
      temps := Function.update d.temps t.temp file
      trace := d.trace ++ resumedNote t d })
    (hkept : file.getD [] = kept) (opening : Opening) :
    (createTemp t.temp d₁).note (.opened t.sourceId
        (rowOwner t (createTemp t.temp d₁))
        (((createTemp t.temp d₁).temps t.temp).getD []) t.total opening) =
      { d with
        temps := Function.update d.temps t.temp (some kept)
        trace := d.trace ++ resumedNote t d ++
          [.opened t.sourceId (rowOwner t d) kept t.total opening] } := by
  subst h₁
  rw [createTemp_eq]
  simp only [Disk.note, Function.update_self, Function.update_idem, hkept]
  rfl

/-- **What opening a stream can come to.** -/
theorem openStream_spec (D : Digests) (t : Target) (attempt : Attempt) (d : Disk) :
    OpenSpec D t attempt d (openStream D t attempt d) := by
  have hcut : truncateTo t.temp 0 (claimed t d) = { d with
      temps := Function.update d.temps t.temp
        (((claimed t d).temps t.temp).map fun _ => [])
      trace := d.trace ++ resumedNote t d } := by
    rw [truncateTo_zero]
    simp only [claimed, Function.update_idem]
  have hcutD : (((claimed t d).temps t.temp).map fun _ => ([] : List Cell)).getD [] = [] := by
    cases (claimed t d).temps t.temp <;> rfl
  have hfresh : t.fresh.Fed D (bytesOf []) t.fresh := .nil
  have hnone : min ([] : List Cell).length t.total = ([] : List Cell).length := Nat.zero_min _
  unfold openStream
  simp only [bind_apply, claimPartial_eq, andThen_ok]
  obtain ⟨v, hprep, hv⟩ | hprep | hprep :=
    prepareResume_cases (D := D) (t := t) attempt.cancelPolls (resumable t d).length
      (claimed t d)
  · -- the prefix was validated
    have hfed : t.fresh.Fed D (bytesOf (resumable t d)) v := by
      obtain ⟨h0, rfl⟩ | ⟨file, hfile, hle, hfed⟩ := hv
      · rw [List.length_eq_zero_iff.mp h0]
        exact .nil
      · rw [claimed_temp, Option.map_eq_some_iff] at hfile
        obtain ⟨_, -, rfl⟩ := hfile
        rwa [List.take_of_length_le (by rw [bytesOf, List.length_map])] at hfed
    rw [hprep]
    simp only [andThen_ok]
    cases hopened : attempt.opened with
    | error e =>
      refine .failed e.blameless (fun cells h => Or.inl ?_)
      obtain ⟨_, -, rfl⟩ := Option.map_eq_some_iff.mp h
      rfl
    | ok opening =>
      obtain ⟨hstart, hrealign⟩ | ⟨-, hstart, hrealign⟩ :=
        realign_cases (D := D) attempt.cancelPolls opening (min_length_resumable t d) v
          (claimed t d)
      · simp only [bind_apply, hstart, hrealign, andThen_ok, modify_apply, pure_apply]
        have hkept := claimed_temp_getD t d
        rw [claimed_temp] at hkept
        have hclaimed : claimed t d = { d with
          temps := Function.update d.temps t.temp
            ((d.temps t.temp).map fun _ => resumable t d)
          trace := d.trace ++ resumedNote t d } := rfl
        have hnote := note_opened hclaimed hkept opening
        unfold rowOwner at hnote
        rw [hnote]
        exact .opened hopened (Or.inl rfl) hfed
      · simp only [bind_apply, hstart, hrealign, andThen_ok, modify_apply, pure_apply]
        have hnote := note_opened hcut hcutD opening
        unfold rowOwner at hnote
        rw [hnote]
        exact .opened hopened (Or.inr rfl) hfresh
  · -- it was not, and the attempt starts over
    rw [hprep]
    simp only [andThen_ok]
    cases hopened : attempt.opened with
    | error e =>
      rw [hcut]
      refine .failed e.blameless (fun cells h => Or.inr ?_)
      obtain ⟨_, -, rfl⟩ := Option.map_eq_some_iff.mp h
      rfl
    | ok opening =>
      obtain ⟨hstart, hrealign⟩ | ⟨hne, -⟩ :=
        realign_cases (D := D) attempt.cancelPolls opening hnone t.fresh
          (truncateTo t.temp 0 (claimed t d))
      · rw [List.length_nil] at hstart hrealign
        simp only [bind_apply, hstart, hrealign, andThen_ok, modify_apply, pure_apply]
        have hnote := note_opened hcut hcutD opening
        unfold rowOwner at hnote
        rw [hnote]
        exact .opened hopened (Or.inr rfl) hfresh
      · exact absurd rfl hne
  · -- the user cancelled
    rw [hprep]
    refine .failed rfl (fun cells h => Or.inl ?_)
    obtain ⟨_, -, rfl⟩ := Option.map_eq_some_iff.mp h
    rfl

/-! ## One turn of the loop -/

/-- The store after a chunk arrived, of which `landed` was appended to the temp. -/
def received (t : Target) (st : StreamState) (file : List Cell) (chunk landed : Bytes)
    (d : Disk) : Disk :=
  { d with
    temps := Function.update d.temps t.temp (some (file ++ cellsBy t.sourceId landed))
    trace := d.trace ++ [.delivered t.sourceId st.bytesDone chunk] }

theorem received_temp (t : Target) (st : StreamState) (file : List Cell)
    (chunk landed : Bytes) (d : Disk) :
    (received t st file chunk landed d).temps t.temp =
      some (file ++ cellsBy t.sourceId landed) :=
  Function.update_self ..

/-- Whether a turn refreshes the downloads row: more than 4 MiB came since the last time, or
the size is reached. -/
def refreshes (t : Target) (st : StreamState) (chunk : Bytes) : Prop :=
  PROGRESS_BYTES < st.bytesDone + chunk.length - st.lastEmit ∨
    st.bytesDone + chunk.length = t.total

instance (t : Target) (st : StreamState) (chunk : Bytes) :
    Decidable (refreshes t st chunk) :=
  inferInstanceAs (Decidable (_ ∨ _))

/-- Why a chunk is refused as bad bytes: it is more than was declared, more
than fits, or completes a leaf that does not verify. -/
inductive Refused (D : Digests) (t : Target) (ceiling : Option ℕ) (st : StreamState)
    (chunk : Bytes) : Error → Prop
  | overlong (h : 0 < t.total ∧ t.total < st.bytesDone + chunk.length) :
    Refused D t ceiling st chunk (.transport t.sourceId
      (.integrity "source sent more bytes than declared size".toList))
  | noSpace {c : ℕ} (hc : ceiling = some c) (h : c < st.bytesDone + chunk.length) :
    Refused D t ceiling st chunk (.transport t.sourceId
      (.integrity "unknown-size source would exhaust free disk space".toList))
  | leaf {e : Error} (h : st.verifier.feed D chunk = .error e) :
    Refused D t ceiling st chunk e

/-- Only writes of unknown size are bounded by the free space. -/
theorem total_eq_zero_of_ceiling {opening : Opening} {start : ℕ}
    (h : (unknownSizeCeiling t opening start).isSome) : t.total = 0 := by
  unfold unknownSizeCeiling at h
  split at h
  · assumption
  · cases h

/-- What one turn can come to when the temp is as long as the counter says. -/
inductive StepSpec (D : Digests) (t : Target) (ceiling : Option ℕ) (st : StreamState)
    (ev : StreamEvent) (file : List Cell) (d : Disk) : Exit Error StreamState × Disk → Prop
  | cancelled (h : ev.cancelled = true) :
    StepSpec D t ceiling st ev file d
      (.err .cancelled, refreshDownload t.downloadId st.bytesDone t.sourceId d)
  | interrupted {e : AdapterError} (hc : ev.cancelled = false) (h : ev.item = .error e) :
    StepSpec D t ceiling st ev file d (.err e.error, d)
  | refused {chunk : Bytes} {e : Error} (hc : ev.cancelled = false)
      (h : ev.item = .ok chunk) (he : Refused D t ceiling st chunk e) :
    StepSpec D t ceiling st ev file d (.err e, received t st file chunk [] d)
  | failed {chunk : Bytes} {n : ℕ} {m : Text} (hc : ev.cancelled = false)
      (h : ev.item = .ok chunk) (hw : ev.write = .failed n m)
      (hfit : ¬ (0 < t.total ∧ t.total < st.bytesDone + chunk.length)) :
    StepSpec D t ceiling st ev file d
      (.err (.fs t.temp m), received t st file chunk (chunk.take n) d)
  | died {chunk : Bytes} {n : ℕ} (hc : ev.cancelled = false)
      (h : ev.item = .ok chunk) (hw : ev.write = .died n)
      (hfit : ¬ (0 < t.total ∧ t.total < st.bytesDone + chunk.length)) :
    StepSpec D t ceiling st ev file d (.crash, received t st file chunk (chunk.take n) d)
  | written {chunk : Bytes} {v : StreamingVerifier} (hc : ev.cancelled = false)
      (h : ev.item = .ok chunk) (hw : ev.write = .written)
      (hfit : ¬ (0 < t.total ∧ t.total < st.bytesDone + chunk.length))
      (hspace : ∀ c, ceiling = some c → st.bytesDone + chunk.length ≤ c)
      (hfeed : st.verifier.feed D chunk = .ok v) (hq : ¬ refreshes t st chunk) :
    StepSpec D t ceiling st ev file d
      (.ok ⟨v, st.bytesDone + chunk.length, st.lastEmit⟩, received t st file chunk chunk d)
  | refreshed {chunk : Bytes} {v : StreamingVerifier} (hc : ev.cancelled = false)
      (h : ev.item = .ok chunk) (hw : ev.write = .written)
      (hfit : ¬ (0 < t.total ∧ t.total < st.bytesDone + chunk.length))
      (hspace : ∀ c, ceiling = some c → st.bytesDone + chunk.length ≤ c)
      (hfeed : st.verifier.feed D chunk = .ok v) (hq : refreshes t st chunk) :
    StepSpec D t ceiling st ev file d
      (.ok ⟨v, st.bytesDone + chunk.length, st.bytesDone + chunk.length⟩,
        refreshDownload t.downloadId (st.bytesDone + chunk.length) t.sourceId
          (received t st file chunk chunk d))

/-- Appending to a temp that is as long as the counter says. -/
theorem writeTemp_note {st : StreamState} {file : List Cell} {d : Disk}
    (htemp : d.temps t.temp = some file) (hlen : file.length = st.bytesDone)
    (chunk landed : Bytes) :
    writeTemp t.temp t.sourceId st.bytesDone landed
        (d.note (.delivered t.sourceId st.bytesDone chunk)) =
      received t st file chunk landed d := by
  unfold writeTemp received
  simp only [Disk.note, htemp]
  rw [← hlen, SparseFile.writeAt_length_self]
  rfl

/-- A chunk of which nothing landed leaves the temp alone. -/
theorem note_delivered {st : StreamState} {file : List Cell} {d : Disk}
    (htemp : d.temps t.temp = some file) (chunk : Bytes) :
    d.note (.delivered t.sourceId st.bytesDone chunk) = received t st file chunk [] d := by
  unfold received Disk.note
  rw [show cellsBy t.sourceId [] = [] from rfl, List.append_nil, ← htemp,
    Function.update_eq_self]

/-- **What one turn of the loop can come to.** -/
theorem streamStep_spec (D : Digests) (t : Target) (ceiling : Option ℕ)
    {st : StreamState} {file : List Cell} {d : Disk} (ev : StreamEvent)
    (htemp : d.temps t.temp = some file) (hlen : file.length = st.bytesDone) :
    StepSpec D t ceiling st ev file d (streamStep D t ceiling st ev d) := by
  unfold streamStep
  cases hc : ev.cancelled with
  | true =>
    rw [if_pos rfl]
    exact .cancelled hc
  | false =>
    rw [if_neg Bool.false_ne_true]
    cases hitem : ev.item with
    | error e => exact .interrupted hc hitem
    | ok chunk =>
      have hnote : d.note (.delivered t.sourceId st.bytesDone chunk) =
          received t st file chunk [] d := note_delivered htemp chunk
      have hwrite : ∀ landed, writeTemp t.temp t.sourceId st.bytesDone landed
          (d.note (.delivered t.sourceId st.bytesDone chunk)) =
            received t st file chunk landed d := writeTemp_note htemp hlen chunk
      simp only [bind_apply, modify_apply, andThen_ok]
      -- the checks come in the source's order: the declared total, the free space, the leaf
      -- digests, and only then the write
      by_cases hover : 0 < t.total ∧ t.total < st.bytesDone + chunk.length
      · rw [if_pos hover, hnote]
        exact .refused hc hitem (.overlong hover)
      · rw [if_neg hover]
        by_cases hspace : ceiling.any (fun c => c < st.bytesDone + chunk.length) = true
        · rw [if_pos hspace, hnote]
          obtain ⟨c, hceil, hlt⟩ := (Option.any_eq_true _ _).mp hspace
          exact .refused hc hitem (.noSpace hceil (of_decide_eq_true hlt))
        · rw [if_neg hspace]
          have hspace' : ∀ c, ceiling = some c → st.bytesDone + chunk.length ≤ c := by
            intro c hceil
            rw [hceil, Option.any_some, decide_eq_true_iff] at hspace
            exact Nat.le_of_not_lt hspace
          cases hfeed : st.verifier.feed D chunk with
          | error e =>
            dsimp only
            rw [throw_apply, hnote]
            exact .refused hc hitem (.leaf hfeed)
          | ok v =>
            dsimp only
            unfold writeChunk
            cases hw : ev.write with
            | failed n m =>
              simp only [bind_apply, modify_apply, andThen_ok, throw_apply, hwrite]
              exact .failed hc hitem hw hover
            | died n =>
              simp only [bind_apply, modify_apply, andThen_ok, die_apply, hwrite]
              exact .died hc hitem hw hover
            | written =>
              simp only [bind_apply, modify_apply, andThen_ok, hwrite]
              -- the row is refreshed past 4 MiB, at full size or on a cancel
              by_cases hq : refreshes t st chunk
              · rw [if_pos (show _ ∨ _ from hq)]
                exact .refreshed hc hitem hw hover hspace' hfeed hq
              · rw [if_neg (show ¬ (_ ∨ _) from hq)]
                exact .written hc hitem hw hover hspace' hfeed hq

/-! ## The invariant -/

/-- **The file, the counter and the verifier are in step**: the temp holds
`file`, the counter is its length, and the verifier was fed exactly its bytes,
in order. -/
structure InStep (D : Digests) (t : Target) (file : List Cell) (st : StreamState)
    (d : Disk) : Prop where
  temp : d.temps t.temp = some file
  length : file.length = st.bytesDone
  fed : t.fresh.Fed D (bytesOf file) st.verifier

namespace InStep

variable {file : List Cell} {st : StreamState} {d : Disk}

/-- The verifier has consumed the file. -/
theorem consumed (h : InStep D t file st d) :
    st.verifier.Consumed t.artifact.hashes t.artifact.sizeBytes (bytesOf file) :=
  h.fed.consumed

/-- The verifier has seen as many bytes as the counter says. -/
theorem bytesSeen (h : InStep D t file st d) : st.verifier.bytesSeen = st.bytesDone := by
  rw [h.consumed.bytesSeen, bytesOf, List.length_map, h.length]

end InStep

@[simp] theorem bytesOf_append (file : List Cell) (sourceId : Text) (data : Bytes) :
    bytesOf (file ++ cellsBy sourceId data) = bytesOf file ++ data := by
  rw [bytesOf, bytesOf, List.map_append, cellsBy, List.map_map]
  exact congrArg _ (List.map_id data)

@[simp] theorem length_cellsBy (sourceId : Text) (data : Bytes) :
    (cellsBy sourceId data).length = data.length :=
  List.length_map _

/-- A stream that was opened starts in step, with the resumed partial or with nothing. -/
theorem openStream_inStep {attempt : Attempt} {d d' : Disk} {opening : Opening}
    {st : StreamState} (h : openStream D t attempt d = (.ok (opening, st), d')) :
    ∃ kept, InStep D t kept st d' := by
  have hspec := openStream_spec D t attempt d
  rw [h] at hspec
  cases hspec with
  | opened hopening hkept hfed =>
    exact ⟨_, Function.update_self _ _ _, rfl, hfed⟩

/-- **A turn of the loop that goes on keeps everything in step**: the chunk was
verified and appended, all of it. -/
theorem streamStep_inStep {ceiling : Option ℕ} {ev : StreamEvent} {file : List Cell}
    {st st' : StreamState} {d d' : Disk} (hin : InStep D t file st d)
    (h : streamStep D t ceiling st ev d = (.ok st', d')) :
    ∃ chunk, InStep D t (file ++ cellsBy t.sourceId chunk) st' d' := by
  have hspec := streamStep_spec D t ceiling ev hin.temp hin.length
  rw [h] at hspec
  cases hspec with
  | @written chunk v _ _ _ _ _ hfeed _ =>
    refine ⟨chunk, Function.update_self _ _ _, ?_, ?_⟩
    · rw [List.length_append, length_cellsBy, hin.length]
    · rw [bytesOf_append]
      exact hin.fed.feed hfeed
  | @refreshed chunk v _ _ _ _ _ hfeed _ =>
    refine ⟨chunk, Function.update_self _ _ _, ?_, ?_⟩
    · rw [List.length_append, length_cellsBy, hin.length]
    · rw [bytesOf_append]
      exact hin.fed.feed hfeed

/-- A loop that starts in step stays in step, turn after turn. -/
theorem foldlM_streamStep_inStep {ceiling : Option ℕ} (events : List StreamEvent)
    {file : List Cell} {st st' : StreamState} {d d' : Disk} (hin : InStep D t file st d)
    (h : events.foldlM (streamStep D t ceiling) st d = (.ok st', d')) :
    ∃ file', InStep D t file' st' d' := by
  induction events generalizing file st d with
  | nil =>
    cases h
    exact ⟨file, hin⟩
  | cons ev events ih =>
    rw [List.foldlM_cons] at h
    obtain ⟨st₁, d₁, hstep, hrest⟩ := bind_eq_ok h
    obtain ⟨chunk, hin₁⟩ := streamStep_inStep hin hstep
    exact ih hin₁ hrest

/-- **What passes the end of the stream has the declared digests and size**, and
is handed on under its own BLAKE3, SHA-256 and length. -/
theorem verifyStream_eq_ok {file : List Cell} {st : StreamState} {d d' : Disk}
    {hashes : Hashes} {size : ℕ} (hin : InStep D t file st d)
    (h : verifyStream D t st d = (.ok (hashes, size), d')) :
    d' = d ∧ t.artifact.Describes D (bytesOf file) ∧ size = file.length ∧
      hashes.blake3 = hexEncode (D.blake3 (bytesOf file)) ∧
      hashes.sha256 = hexEncode (D.sha256 (bytesOf file)) := by
  unfold verifyStream at h
  by_cases hshort : st.bytesDone < t.total
  · rw [if_pos hshort] at h
    cases h
  · rw [if_neg hshort] at h
    cases hfinish : st.verifier.finish D with
    | error e =>
      rw [hfinish] at h
      cases h
    | ok got =>
      rw [hfinish] at h
      cases h
      obtain ⟨hmatch, hsize, hb, hs⟩ :=
        StreamingVerifier.finish_eq_ok hin.consumed hfinish
      refine ⟨rfl, ⟨hmatch, hsize⟩, ?_, hb, hs⟩
      by_cases htotal : 0 < t.total
      · have hlen := hsize htotal.ne'
        rw [bytesOf, List.length_map] at hlen
        rw [if_pos htotal]
        exact hlen.symm
      · rw [if_neg htotal, hin.length]

/-! ## Runs of attempts -/

/-- Attempts one after another on the same store, each from what the one
before it left there, however that one ended. -/
def runAttempts (D : Digests) (attempts : List (Target × Attempt)) (d : Disk) : Disk :=
  attempts.foldl (fun d a => (streamOnce D a.1 a.2 d).2) d

/-- The attempt reached the head of its read loop with this state. -/
def AtLoopHead (D : Digests) (t : Target) (attempt : Attempt) (d : Disk)
    (st : StreamState) (d' : Disk) : Prop :=
  ∃ opening st₀ d₀ events, openStream D t attempt d = (.ok (opening, st₀), d₀) ∧
    events <+: opening.events ∧
    events.foldlM (streamStep D t (unknownSizeCeiling t opening st₀.bytesDone)) st₀ d₀ =
      (.ok st, d')

/-- An attempt at the head of its loop is in step. -/
theorem AtLoopHead.inStep {attempt : Attempt} {d d' : Disk} {st : StreamState}
    (h : AtLoopHead D t attempt d st d') : ∃ file, InStep D t file st d' := by
  obtain ⟨opening, st₀, d₀, events, hopen, -, hloop⟩ := h
  obtain ⟨kept, hin⟩ := openStream_inStep hopen
  exact foldlM_streamStep_inStep events hin hloop

/-- An attempt that hands over was at the head of its loop when the stream ended. -/
theorem streamToCommit_eq_ok {attempt : Attempt} {d d' : Disk} {r : Hashes × ℕ}
    (h : streamToCommit D t attempt d = (.ok r, d')) :
    ∃ st d₁, AtLoopHead D t attempt d st d₁ ∧ verifyStream D t st d₁ = (.ok r, d') := by
  unfold streamToCommit at h
  obtain ⟨⟨opening, st⟩, d₁, hopen, h⟩ := bind_eq_ok h
  obtain ⟨st', d₂, hloop, h⟩ := bind_eq_ok h
  cases hending : opening.ending with
  | died =>
    rw [hending] at h
    cases h
  | endOfStream =>
    rw [hending] at h
    exact ⟨st', d₂, ⟨opening, st, d₁, opening.events, hopen, List.prefix_rfl, hloop⟩, h⟩

/-- **What a transfer commits is what it verified.** Start with any files at
all under `tmp/`, make any attempts one after another, and then one more: at
the head of its read loop the temp is as long as the counter says, the verifier
has seen that many bytes and was fed exactly the bytes of the temp in order, so
that its three hashers have consumed them; and whenever it hands the temp to
`commitBlob`, the bytes there have every declared digest and the declared size,
and are handed over under their own BLAKE3 and length. -/
theorem streamOnce_commits_verified (D : Digests) (d₀ : Disk)
    (earlier : List (Target × Attempt)) (t : Target) (attempt : Attempt) :
    (∀ st d, AtLoopHead D t attempt (runAttempts D earlier d₀) st d →
      ∃ file, d.temps t.temp = some file ∧ file.length = st.bytesDone ∧
        st.verifier.bytesSeen = st.bytesDone ∧
        t.fresh.Fed D (bytesOf file) st.verifier ∧
        st.verifier.dual = t.fresh.dual.update (bytesOf file)) ∧
    (∀ hashes size d,
      streamToCommit D t attempt (runAttempts D earlier d₀) = (.ok (hashes, size), d) →
      ∃ file, d.temps t.temp = some file ∧ t.artifact.Describes D (bytesOf file) ∧
        size = file.length ∧ hashes.blake3 = hexEncode (D.blake3 (bytesOf file))) := by
  constructor
  · intro st d h
    obtain ⟨file, hin⟩ := h.inStep
    exact ⟨file, hin.temp, hin.length, hin.bytesSeen, hin.fed, hin.fed.dual⟩
  · intro hashes size d h
    obtain ⟨st, d₁, hhead, hverify⟩ := streamToCommit_eq_ok h
    obtain ⟨file, hin⟩ := hhead.inStep
    obtain ⟨rfl, hdesc, hsize, hb, -⟩ := verifyStream_eq_ok hin hverify
    exact ⟨file, hin.temp, hdesc, hsize, hb⟩

/-! ## A resumed file -/

/-- The file `abc` at a mirror, which has no chunk tree, with the digests of its content, so
that it can be delivered as declared. -/
def abcTarget : Target where
  artifact := {
    path := "abc.bin".toList
    sizeBytes := 3
    hashes := ⟨(hashBytes sampleDigests abc).blake3, (hashBytes sampleDigests abc).sha256, []⟩
    chunking := none
    sources := [] }
  source := .httpsMirror "https://mirror.example/abc.bin".toList .none
  temp := "tmp/abc.part".toList
  downloadId := "abc".toList
  chunkTree := none

/-- An attempt at a mirror that serves ranges: some bytes come in one chunk. -/
def abcAttempt (chunk : Bytes) : Attempt where
  cancelPolls _ := false
  opened := .ok ⟨true, none, [⟨false, .ok chunk, .written⟩], .endOfStream⟩
  now := 0

/-- The store after an attempt that got one byte, which is how the examples of a resumed
partial begin. -/
def firstByte : Disk := runAttempts sampleDigests [(abcTarget, abcAttempt [0x61])] Disk.empty

/-- The next attempt resumes that byte, and hands the whole file to `commitBlob`. -/
theorem resumed_abc_committed :
    firstByte.tempLen abcTarget.temp = 1 ∧
      ∃ hashes size d file,
        streamToCommit sampleDigests abcTarget (abcAttempt [0x62, 0x63]) firstByte =
          (.ok (hashes, size), d) ∧
        d.temps abcTarget.temp = some file ∧
        abcTarget.artifact.Describes sampleDigests (bytesOf file) ∧ size = file.length ∧
        hashes.blake3 = hexEncode (sampleDigests.blake3 (bytesOf file)) := by
  have hok : (streamToCommit sampleDigests abcTarget (abcAttempt [0x62, 0x63]) firstByte).1 =
      .ok (hashBytes sampleDigests abc, 3) := by
    decide +kernel
  obtain ⟨-, hcommits⟩ := streamOnce_commits_verified sampleDigests Disk.empty
    [(abcTarget, abcAttempt [0x61])] abcTarget (abcAttempt [0x62, 0x63])
  obtain ⟨file, hfile⟩ := hcommits _ _ _ (Prod.ext hok rfl)
  exact ⟨by decide +kernel, _, _, _, file, Prod.ext hok rfl, hfile⟩

end Atlas
