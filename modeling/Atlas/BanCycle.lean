import Atlas.NewBlame
import Atlas.SourceVisits

/-!
# The life of a ban

A source that served bad bytes is banned until it serves good ones, and for no more than some
hours after the last time it served bad ones. Of the ban that the health table has, this is so
after any results in any order (`ban_iff`, `bannedAt_iff`).

A download asks for it when the turn of a source comes, and then opens the source's streams
one after the other. It is not asked for again before the next attempt at the same source, so
a ban that another transfer sets in between does not keep the stream from being opened
(`visitDownload_openings_iff`).
-/

namespace Atlas

open Text Program Session

/-! ## Histories -/

section History

variable (sourceId : Text)

/-- There is nothing of the source but ordinary failures, none of which says anything about
its bytes. -/
def Ordinary (history : List SourceResult) : Prop :=
  ∀ r ∈ history, r.sourceId = sourceId → r.outcome = .networkFailure

/-- The source was last found to serve bad bytes at some time, and has served no good ones
since. -/
def BannedSince (τ : ℕ) (history : List SourceResult) : Prop :=
  ∃ before after, history = before ++ ⟨sourceId, .integrityFailure, τ⟩ :: after ∧
    Ordinary sourceId after

/-- The source has last served good bytes: after its latest success there are only ordinary
failures, none of integrity. -/
def Cleared (history : List SourceResult) : Prop :=
  ∃ before τ after, history = before ++ ⟨sourceId, .success, τ⟩ :: after ∧
    Ordinary sourceId after

/-- What a row says of a ban: whether there is one, and from when. -/
def SourceHealth.ban (h : SourceHealth) : Bool × Option ℕ := (h.banned, h.bannedAt)

/-- What a result does to a ban of the source: a success lifts it, wrong bytes set it, and
an ordinary failure leaves it. -/
def banStep (b : Bool × Option ℕ) (r : SourceResult) : Bool × Option ℕ :=
  if r.sourceId = sourceId then
    match r.outcome with
    | .success => (false, none)
    | .networkFailure => b
    | .integrityFailure => (true, some r.now)
  else b

variable {sourceId}

/-- **What the table does** is a matter of the ban alone. -/
theorem ban_foldl_record (history : List SourceResult) (rows : List SourceHealth) :
    (Db.getSourceHealth sourceId (history.foldl SourceResult.record rows)).ban =
      history.foldl (banStep sourceId) (Db.getSourceHealth sourceId rows).ban := by
  induction history generalizing rows with
  | nil => rfl
  | cons r history ih =>
    have hstep : (Db.getSourceHealth sourceId (SourceResult.record rows r)).ban =
        banStep sourceId (Db.getSourceHealth sourceId rows).ban r := by
      unfold SourceResult.record banStep
      rw [Db.getSourceHealth_recordSourceResult]
      by_cases hid : r.sourceId = sourceId
      · rw [if_pos hid, if_pos hid]
        cases r.outcome with
        | success => rfl
        | networkFailure => exact Prod.ext (Bool.or_false _) rfl
        | integrityFailure => exact Prod.ext (Bool.or_true _) rfl
      · rw [if_neg hid, if_neg hid]
    rw [List.foldl_cons, List.foldl_cons, ih, hstep]

theorem foldl_banStep_of_ordinary {history : List SourceResult} (b : Bool × Option ℕ)
    (h : Ordinary sourceId history) : history.foldl (banStep sourceId) b = b := by
  induction history with
  | nil => rfl
  | cons r history ih =>
    obtain ⟨hr, hrest⟩ := List.forall_mem_cons.mp h
    have hstep : banStep sourceId b r = b := by
      unfold banStep
      by_cases hid : r.sourceId = sourceId
      · rw [if_pos hid, hr hid]
      · exact if_neg hid
    rw [List.foldl_cons, hstep]
    exact ih hrest

theorem foldl_banStep_of_bannedSince {history : List SourceResult} {τ : ℕ}
    (b : Bool × Option ℕ) (h : BannedSince sourceId τ history) :
    history.foldl (banStep sourceId) b = (true, some τ) := by
  obtain ⟨before, after, rfl, hafter⟩ := h
  rw [List.foldl_append, List.foldl_cons, foldl_banStep_of_ordinary _ hafter]
  exact if_pos rfl

theorem foldl_banStep_of_cleared {history : List SourceResult} (b : Bool × Option ℕ)
    (h : Cleared sourceId history) : history.foldl (banStep sourceId) b = (false, none) := by
  obtain ⟨before, τ, after, rfl, hafter⟩ := h
  rw [List.foldl_append, List.foldl_cons, foldl_banStep_of_ordinary _ hafter]
  exact if_pos rfl

variable (sourceId) in
/-- **A history is one of three.** -/
theorem history_cases (history : List SourceResult) :
    Ordinary sourceId history ∨ (∃ τ, BannedSince sourceId τ history) ∨
      Cleared sourceId history := by
  induction history with
  | nil => exact Or.inl (List.forall_mem_nil _)
  | cons r history ih =>
    obtain hrest | ⟨τ, before, after, rfl, hafter⟩ | ⟨before, τ, after, rfl, hafter⟩ := ih
    · by_cases hid : r.sourceId = sourceId
      · obtain ⟨id, outcome, now⟩ := r
        obtain rfl : id = sourceId := hid
        cases outcome with
        | success => exact Or.inr (Or.inr ⟨[], now, history, rfl, hrest⟩)
        | networkFailure => exact Or.inl (List.forall_mem_cons.mpr ⟨fun _ => rfl, hrest⟩)
        | integrityFailure => exact Or.inr (Or.inl ⟨now, [], history, rfl, hrest⟩)
      · exact Or.inl (List.forall_mem_cons.mpr ⟨fun h => absurd h hid, hrest⟩)
    · exact Or.inr (Or.inl ⟨τ, r :: before, after, rfl, hafter⟩)
    · exact Or.inr (Or.inr ⟨r :: before, τ, after, rfl, hafter⟩)

/-- The row a source has after a history of results, recorded one by one on an empty table. -/
abbrev healthAfter (sourceId : Text) (history : List SourceResult) : SourceHealth :=
  Db.getSourceHealth sourceId (history.foldl SourceResult.record [])

/-- **A ban has the time of the last failure for bad bytes.** -/
theorem bannedAt_iff {history : List SourceResult} {τ : ℕ} :
    (healthAfter sourceId history).bannedAt = some τ ↔ BannedSince sourceId τ history := by
  have hban := @ban_foldl_record sourceId history []
  have hat : (healthAfter sourceId history).bannedAt =
      (history.foldl (banStep sourceId) (false, none)).2 := congrArg Prod.snd hban
  rw [hat]
  obtain h | ⟨τ', h⟩ | h := history_cases sourceId history
  · rw [foldl_banStep_of_ordinary _ h]
    refine iff_of_false (fun h => nomatch h) ?_
    rintro ⟨before, after, rfl, -⟩
    exact nomatch h _ (List.mem_append_right _ List.mem_cons_self) rfl
  · rw [foldl_banStep_of_bannedSince _ h]
    constructor
    · rintro ⟨⟩
      exact h
    · intro h'
      have heq := (foldl_banStep_of_bannedSince (false, none) h).symm.trans
        (foldl_banStep_of_bannedSince (false, none) h')
      exact congrArg Prod.snd heq
  · rw [foldl_banStep_of_cleared _ h]
    refine iff_of_false (fun h => nomatch h) fun h' => ?_
    have heq := (foldl_banStep_of_cleared (false, none) h).symm.trans
      (foldl_banStep_of_bannedSince (false, none) h')
    cases heq

/-- **A source is banned exactly if it served bad bytes after it last served good ones.** -/
theorem ban_iff {history : List SourceResult} :
    (healthAfter sourceId history).banned = true ↔
      ∃ before τ after, history = before ++ ⟨sourceId, .integrityFailure, τ⟩ :: after ∧
        ∀ r ∈ after, r.sourceId = sourceId → r.outcome ≠ .success := by
  have hban := @ban_foldl_record sourceId history []
  have hbanned : (healthAfter sourceId history).banned =
      (history.foldl (banStep sourceId) (false, none)).1 := congrArg Prod.fst hban
  rw [hbanned]
  constructor
  · intro h
    obtain hhist | ⟨τ, before, after, rfl, hafter⟩ | hhist := history_cases sourceId history
    · rw [foldl_banStep_of_ordinary _ hhist] at h
      cases h
    · refine ⟨before, τ, after, rfl, fun r hr hid => ?_⟩
      rw [hafter r hr hid]
      exact Outcome.noConfusion
    · rw [foldl_banStep_of_cleared _ hhist] at h
      cases h
  · rintro ⟨before, τ, after, rfl, hafter⟩
    rw [List.foldl_append, List.foldl_cons]
    generalize before.foldl (banStep sourceId) (false, none) = b
    have hstep : banStep sourceId b ⟨sourceId, .integrityFailure, τ⟩ = (true, some τ) := if_pos rfl
    rw [hstep]
    obtain h | ⟨τ', h⟩ | ⟨before', τ', after', rfl, -⟩ := history_cases sourceId after
    · rw [foldl_banStep_of_ordinary _ h]
    · rw [foldl_banStep_of_bannedSince _ h]
    · exact absurd rfl (hafter _ (List.mem_append_right _ List.mem_cons_self) rfl)

/-! ## How long it keeps the source out -/

/-- A ban of the table excludes its source at a time: it has no date, or its date is less
than the cooldown ago. -/
def banExcludes (now : ℕ) (b : Bool × Option ℕ) : Bool :=
  b.1 && match b.2 with
    | none => true
    | some since => decide ((now : ℤ) - since < BAN_COOLDOWN_HOURS * 3600)

theorem banActive_eq (now : ℕ) (h : SourceHealth) : banActive now h = banExcludes now h.ban := rfl

/-- A ban that has run out does not come back. -/
theorem banExcludes_mono {now now' : ℕ} {b : Bool × Option ℕ} (h : banExcludes now b = false)
    (hle : now ≤ now') : banExcludes now' b = false := by
  unfold banExcludes at h ⊢
  obtain ⟨banned, since⟩ := b
  cases banned with
  | false => rfl
  | true =>
    cases since with
    | none => cases h
    | some since =>
      have hover : ¬ (now : ℤ) - since < BAN_COOLDOWN_HOURS * 3600 :=
        of_decide_eq_false h
      refine decide_eq_false fun hlt => hover ?_
      have hcast : (now : ℤ) ≤ now' := Int.ofNat_le.mpr hle
      exact Int.lt_of_le_of_lt (Int.sub_le_sub_right hcast _) hlt

/-- **Of a source that was not kept out**, what others record since then decides. -/
theorem banExcludes_foldl_iff {now₀ now : ℕ} {b : Bool × Option ℕ}
    (h : banExcludes now₀ b = false) (hle : now₀ ≤ now) (since : List SourceResult) :
    banExcludes now (since.foldl (banStep sourceId) b) = false ↔
      ∀ τ, BannedSince sourceId τ since → (BAN_COOLDOWN_HOURS * 3600 : ℤ) ≤ now - τ := by
  obtain hhist | ⟨τ, hhist⟩ | hhist := history_cases sourceId since
  · rw [foldl_banStep_of_ordinary _ hhist]
    refine iff_of_true (banExcludes_mono h hle) ?_
    rintro τ ⟨before, after, rfl, -⟩
    exact nomatch hhist _ (List.mem_append_right _ List.mem_cons_self) rfl
  · have htime : ∀ τ', BannedSince sourceId τ' since → τ' = τ := by
      intro τ' h'
      have heq := (foldl_banStep_of_bannedSince b h').symm.trans
        (foldl_banStep_of_bannedSince b hhist)
      exact Option.some.inj (congrArg Prod.snd heq)
    rw [foldl_banStep_of_bannedSince _ hhist]
    show decide _ = false ↔ _
    rw [decide_eq_false_iff_not, Int.not_lt]
    constructor
    · intro hover τ' h'
      rw [htime τ' h']
      exact hover
    · intro hover
      exact hover τ hhist
  · rw [foldl_banStep_of_cleared _ hhist]
    refine iff_of_true rfl fun τ h' => ?_
    have heq := (foldl_banStep_of_cleared b hhist).symm.trans (foldl_banStep_of_bannedSince b h')
    cases heq

end History

/-! ## What a visit opens -/

/-- Of what others recorded since the source was checked, nothing keeps it out. -/
def StreamOpening.Unprovoked (o : StreamOpening) : Prop :=
  ∀ τ, BannedSince o.sourceId τ o.since → (BAN_COOLDOWN_HOURS * 3600 : ℤ) ≤ o.now - τ

/-- Whether the source is kept out when its stream is opened is decided by what others recorded. -/
def Told (openings : List StreamOpening) : Prop :=
  ∀ o ∈ openings, banActive o.now o.health = false ↔ o.Unprovoked

/-- Since the source was checked its ban has changed by what others recorded, and by nothing
else. -/
structure BanTracked (sourceId : Text) (b : Bool × Option ℕ) (s : Session) : Prop where
  ban : (s.health sourceId).ban = s.since.foldl (banStep sourceId) b
  told : Told s.openings

section Visit

variable {D : Digests} {t : Target} {visit : SourceVisit} {b : Bool × Option ℕ} {now₀ : ℕ}
  {s : Session}

theorem BanTracked.record {sourceId : Text} (h : BanTracked sourceId b s)
    (others : List SourceResult) : BanTracked sourceId b (s.record others) where
  ban := by
    have hban := @ban_foldl_record sourceId others s.disk.sourceHealth
    show (Db.getSourceHealth sourceId _).ban = (s.since ++ others).foldl _ b
    rw [List.foldl_append, ← h.ban]
    exact hban
  told := h.told

theorem BanTracked.noteOpening {sourceId : Text} (h : BanTracked sourceId b s)
    (hb : banExcludes now₀ b = false) {now : ℕ} (hle : now₀ ≤ now) :
    BanTracked sourceId b (s.noteOpening sourceId now) where
  ban := h.ban
  told := by
    refine List.forall_mem_append.mpr ⟨h.told, List.forall_mem_singleton.mpr ?_⟩
    show banActive now (s.health sourceId) = false ↔ _
    rw [banActive_eq, h.ban]
    exact banExcludes_foldl_iff hb hle s.since

theorem BanTracked.withDisk {sourceId : Text} (h : BanTracked sourceId b s) {d : Disk}
    (hd : d.sourceHealth = s.disk.sourceHealth) : BanTracked sourceId b { s with disk := d } where
  ban := by
    show (Db.getSourceHealth sourceId d.sourceHealth).ban = _
    rw [hd]
    exact h.ban
  told := h.told

/-- An ordinary failure of the source changes no ban. -/
theorem BanTracked.recordResult {sourceId : Text} (h : BanTracked sourceId b s) (now : ℕ) :
    BanTracked sourceId b { s with disk := recordResult sourceId false false now s.disk } where
  ban := by
    have hban := @ban_foldl_record sourceId
      [⟨sourceId, .networkFailure, now⟩] s.disk.sourceHealth
    rw [foldl_banStep_of_ordinary _ (List.forall_mem_singleton.mpr fun _ => rfl)] at hban
    exact hban.trans h.ban
  told := h.told

/-- The table of health as it is. -/
theorem health_committing (rows : List SourceHealth) :
    Committing (fun d => d.sourceHealth = rows) :=
  ⟨⟨fun _ _ h => h, fun _ _ h => h, fun _ _ h => h⟩, fun _ _ h => h⟩

/-- A stream that fails leaves the table as it is. -/
theorem onDisk_tracked {sourceId : Text} {x : Program Disk Error BlobMeta}
    (hx : ∀ rows, Triple (fun d => d.sourceHealth = rows) x
      (fun r d => ∀ e, r = .err e → d.sourceHealth = rows)) :
    Triple (BanTracked sourceId b) (onDisk x)
      (fun r s => Told s.openings ∧ ∀ e, r = .err e → BanTracked sourceId b s) :=
  fun s h => ⟨h.told, fun e he => h.withDisk (hx s.disk.sourceHealth s.disk rfl e he)⟩

/-- **A stream is opened** some time after the source was checked. -/
theorem visitStream_tracked (hb : banExcludes now₀ b = false) (attempt : Attempt) {gap : Gap}
    (hle : now₀ ≤ gap.now) :
    Triple (BanTracked t.sourceId b) (visitStream D t attempt gap)
      (fun r s => Told s.openings ∧ ∀ e, r = .err e → BanTracked t.sourceId b s) := by
  have hopen : Keeps (BanTracked t.sourceId b)
      (modify (Session.noteOpening t.sourceId gap.now) : Program Session Error Unit) :=
    Keeps.modify fun _ h => h.noteOpening hb hle
  refine Triple.bind (Keeps.modify fun _ h => h.record _) (fun _ => ?_)
    (fun _ _ h => ⟨h.told, fun _ _ => h⟩) fun _ h => ⟨h.told, fun _ _ => h⟩
  refine Triple.bind Keeps.get (fun _ => ?_)
    (fun _ _ h => ⟨h.told, fun _ _ => h⟩) fun _ h => ⟨h.told, fun _ _ => h⟩
  refine Triple.bind (Keeps.whenever fun _ => hopen) (fun _ => ?_)
    (fun _ _ h => ⟨h.told, fun _ _ => h⟩) fun _ h => ⟨h.told, fun _ _ => h⟩
  exact onDisk_tracked fun rows => (health_committing rows).streamOnce_err attempt

/-- Nothing is opened in the quarantine. -/
theorem quarantinePartial_told (e : Error) (move : Move) :
    Keeps (fun s => Told s.openings) (quarantinePartial t e move) := by
  have hfile : ∀ src label, Keeps (fun s => Told s.openings)
      (quarantineFile t.downloadId src label move) := by
    intro src label
    refine Keeps.bind (Keeps.bind Keeps.get fun _ => Keeps.bind (Keeps.modify fun _ h => h)
      fun _ => Keeps.pure _) fun dir => Keeps.bind Keeps.get fun s => ?_
    cases s.disk.temps src with
    | none => exact Keeps.pure _
    | some cells =>
      exact Keeps.ite (Keeps.bind (Keeps.modify fun _ h => h) fun _ => Keeps.pure _)
        (Keeps.throw _)
  refine Keeps.bind Keeps.get fun s => Keeps.bind (fun _ h => h) fun _ => ?_
  exact Keeps.bind (hfile _ _) fun path => Keeps.modify fun _ h => h

/-- **One attempt**, and what comes after a failure that blames nobody. -/
theorem visitAttempt_told (hb : banExcludes now₀ b = false) (attempt : Attempt) {gap : Gap}
    (hle : now₀ ≤ gap.now) (move : Move) {next : Error → Program Session Error BlobMeta}
    (hnext : ∀ e, Triple (BanTracked t.sourceId b) (next e) (fun _ s => Told s.openings)) :
    Triple (BanTracked t.sourceId b) (result (visitStream D t attempt gap) >>= fun r =>
      match r with
      | .ok m => pure m
      | .error e => modify (noteFailure e t.temp) >>= fun _ =>
        if e = .cancelled then throw e
        else onDisk (modify (recordResult t.sourceId false e.blames attempt.now)) >>= fun _ =>
          if e.blames then quarantinePartial t e move >>= fun _ => throw e else next e)
      (fun _ s => Told s.openings) := by
  -- the ban checked at the turn's head still stands when the stream opens; an integrity failure may
  -- change it, and then the attempt ends
  have hstream : Triple (BanTracked t.sourceId b) (result (visitStream D t attempt gap))
      (fun r s => Told s.openings ∧ ∀ e, r = .ok (.error e) → BanTracked t.sourceId b s) := by
    refine Triple.result ((visitStream_tracked hb attempt hle).post fun r s h => ?_)
    cases r with
    | ok m => exact ⟨h.1, fun e he => nomatch he⟩
    | err e => exact ⟨h.1, fun _ _ => h.2 e rfl⟩
    | crash => exact ⟨h.1, fun e he => nomatch he⟩
  refine Triple.bind hstream (fun r => ?_) (fun _ _ h => h.1) fun _ h => h.1
  cases r with
  | ok m => exact fun _ h => h.1
  | error e =>
    refine Triple.conseq ?_ (fun s h => h.2 e rfl) fun _ _ h => h
    have hnoted : Keeps (BanTracked t.sourceId b)
        (modify (noteFailure e t.temp) : Program Session Error Unit) :=
      Keeps.modify fun _ h => ⟨h.ban, h.told⟩
    refine Triple.bind hnoted (fun _ => ?_) (fun _ _ h => h.told) fun _ h => h.told
    refine Triple.ite (fun _ _ h => h.told) fun _ => ?_
    cases e.blames with
    | true =>
      have hrecorded : Triple (BanTracked t.sourceId b)
          (onDisk (modify (Atlas.recordResult t.sourceId false true attempt.now)))
          (fun _ s => Told s.openings) := fun _ h => h.told
      refine Triple.bind hrecorded (fun _ => ?_) (fun _ _ h => h) fun _ h => h
      exact Keeps.bind (quarantinePartial_told e move) fun _ => Keeps.throw e
    | false =>
      have hrecorded : Keeps (BanTracked t.sourceId b)
          (onDisk (modify (Atlas.recordResult t.sourceId false false attempt.now))) :=
        fun _ h => h.recordResult _
      exact Triple.bind hrecorded (fun _ => hnext e) (fun _ _ h => h.told) fun _ h => h.told

/-- **All attempts.** -/
theorem visitAttempts_told (hb : banExcludes now₀ b = false)
    (hle : ∀ k, now₀ ≤ (visit.gaps k).now) (retries n : ℕ) :
    Triple (BanTracked t.sourceId b) (visitAttempts D t visit retries n)
      (fun _ s => Told s.openings) := by
  induction retries generalizing n with
  | zero =>
    unfold visitAttempts
    exact visitAttempt_told hb _ (hle n) _ fun e _ h => h.told
  | succ retries ih =>
    unfold visitAttempts
    exact @visitAttempt_told D t b now₀ hb _ _ (hle n) _
      (fun e => if e.isRetriable then visitAttempts D t visit retries (n + 1) else throw e)
      fun e => Triple.ite (fun _ => ih (n + 1)) fun _ _ h => h.told

theorem visitSegments_tracked (hb : banExcludes now₀ b = false)
    (hle : ∀ k, now₀ ≤ (visit.connections k).now) :
    Triple (BanTracked t.sourceId b) (visitSegments D t visit)
      (fun r s => Told s.openings ∧ ∀ e, r = .err e → BanTracked t.sourceId b s) := by
  have hopen : Keeps (BanTracked t.sourceId b)
      ((List.range (segmentCount t visit.run.connections)).forM fun k =>
        modify fun s => Session.noteOpening t.sourceId (visit.connections k).now
          (Session.record (visit.connections k).others s) : Program Session Error Unit) :=
    Keeps.forM _ fun k _ => Keeps.modify fun _ h => (h.record _).noteOpening hb (hle k)
  refine Triple.bind hopen (fun _ => ?_) (fun _ _ h => ⟨h.told, fun _ _ => h⟩)
    fun _ h => ⟨h.told, fun _ _ => h⟩
  exact onDisk_tracked fun rows => (health_committing rows).streamSegmented_err _ _

theorem truncateTo_sourceHealth (temp : Text) (len : ℕ) (d : Disk) :
    (truncateTo temp len d).sourceHealth = d.sourceHealth := by
  unfold truncateTo
  split <;> rfl

/-- **A visit.** -/
theorem visitSource_told (hb : banExcludes now₀ b = false)
    (hconnections : ∀ k, now₀ ≤ (visit.connections k).now)
    (hgaps : ∀ k, now₀ ≤ (visit.gaps k).now) (maxAttempts : ℕ) :
    Triple (BanTracked t.sourceId b) (visitSource D maxAttempts t visit)
      (fun _ s => Told s.openings) := by
  have hattempts := @visitAttempts_told D t visit b now₀ hb hgaps (maxAttempts - 1) 0
  unfold visitSource
  cases visit.run.preflight with
  | error e => exact fun _ h => h.told
  | ok u =>
    refine Triple.bind Keeps.get (fun s => Triple.ite (fun _ => ?_) fun _ => hattempts)
      (fun _ _ h => h.told) fun _ h => h.told
    have hsegments : Triple (BanTracked t.sourceId b) (result (visitSegments D t visit))
        (fun r s => Told s.openings ∧ ∀ e, r = .ok (.error e) → BanTracked t.sourceId b s) := by
      refine Triple.result ((visitSegments_tracked hb hconnections).post fun r s h => ?_)
      cases r with
      | ok m => exact ⟨h.1, fun e he => nomatch he⟩
      | err e => exact ⟨h.1, fun _ _ => h.2 e rfl⟩
      | crash => exact ⟨h.1, fun e he => nomatch he⟩
    refine Triple.bind hsegments (fun r => ?_) (fun _ _ h => h.1) fun _ h => h.1
    cases r with
    | ok m => exact fun _ h => h.1
    | error e =>
      refine Triple.conseq ?_ (fun s h => h.2 e rfl) fun _ _ h => h
      refine Triple.ite (fun _ _ h => h.told) fun _ => ?_
      have htruncated : Keeps (BanTracked t.sourceId b)
          (onDisk (modify (truncateTo t.temp 0))) :=
        fun s h => h.withDisk (truncateTo_sourceHealth _ _ _)
      exact Triple.bind htruncated (fun _ => hattempts) (fun _ _ h => h.told) fun _ h => h.told

/-! ## What a download opens -/

/-- The clock does not go back in a source's turn, whatever passes between its connections. -/
structure PlannedVisit.Ordered (p : PlannedVisit) : Prop where
  connections : ∀ k, p.check.now ≤ (p.visit.connections k).now
  gaps : ∀ k, p.check.now ≤ (p.visit.gaps k).now

theorem visitSources_told {ctx : LoopContext} {plan : List PlannedVisit}
    (h : ∀ p ∈ plan, p.Ordered) (partialOwner : Option Text) (lastErr : Option Error) :
    Keeps (fun s => Told s.openings) (visitSources D ctx plan partialOwner lastErr) := by
  -- on the plan: the ban is read at the head of each turn, and `BanTracked` carries what was read
  -- through the visit
  induction plan generalizing partialOwner lastErr with
  | nil => exact Keeps.bind (fun _ h => h) fun _ => Keeps.throw _
  | cons p rest ih =>
    obtain ⟨hp, hrest⟩ := List.forall_mem_cons.mp h
    refine Keeps.ite (fun _ h => h) (Keeps.bind (Keeps.modify fun _ h => h) fun _ => ?_)
    intro s hs
    rw [bind_apply, get_apply, andThen_ok]
    by_cases hactive : banActive p.check.now (s.health p.source.sourceId) = true
    · rw [if_pos hactive]
      exact ih hrest _ _ s hs
    · rw [if_neg hactive]
      generalize hban : (s.health p.source.sourceId).ban = b
      have hb : banExcludes p.check.now b = false := by
        rw [← hban]
        exact Bool.eq_false_iff.mpr hactive
      have hchecked : BanTracked p.source.sourceId b { s with since := [] } := ⟨hban, hs⟩
      -- cutting a foreign partial touches the disk but no source's record
      have htruncated : Keeps (BanTracked p.source.sourceId b)
          (onDisk (whenever (ctx.chunkTree.isNone ∧ partialOwner.any (· ≠ p.source.sourceId)) <|
            modify (truncateTo ctx.temp 0))) := by
        intro s h
        refine h.withDisk ?_
        unfold whenever
        split
        · exact truncateTo_sourceHealth _ _ _
        · rfl
      have hvisit : Triple (BanTracked p.source.sourceId b)
          (result (visitSource D ctx.maxAttempts (ctx.target p.source) p.visit))
          (fun _ s => Told s.openings) := by
        refine Triple.result (Triple.post (@visitSource_told D (ctx.target p.source) p.visit b
          p.check.now hb hp.connections hp.gaps ctx.maxAttempts) fun r _ h => ?_)
        cases r <;> exact h
      have hturn : Triple (BanTracked p.source.sourceId b) (do
          onDisk (whenever (ctx.chunkTree.isNone ∧ partialOwner.any (· ≠ p.source.sourceId)) <|
            modify (truncateTo ctx.temp 0))
          let r ← result (visitSource D ctx.maxAttempts (ctx.target p.source) p.visit)
          match r with
          | .ok m => do
            onDisk (modify fun d => { d with
              downloads := Db.setDownloadState ctx.downloadId "complete".toList d.downloads
              cache := finalizeBlob D ctx.artifact m ctx.buildsTree d.cache })
            pure ⟨ctx.artifact.path, m.blake3, false, some p.source.sourceId, m.sizeBytes⟩
          | .error e =>
            if e = .cancelled then onDisk (finishCancelled ctx.discard ctx.downloadId ctx.temp)
            else do
              let s ← get
              visitSources D ctx rest
                (if 0 < s.disk.tempLen ctx.temp then some p.source.sourceId else none) (some e))
          (fun _ s => Told s.openings) := by
        refine Triple.bind htruncated (fun _ => ?_) (fun _ _ h => h.told) fun _ h => h.told
        refine Triple.bind hvisit (fun r => ?_) (fun _ _ h => h) fun _ h => h
        cases r with
        | ok m => exact Keeps.bind (fun _ h => h) fun _ => Keeps.pure _
        | error e =>
          exact Keeps.ite (fun _ h => h) (Keeps.bind Keeps.get fun _ => ih hrest _ _)
      exact hturn { s with since := [] } hchecked

/-- **All that a download opens** is decided by what others recorded. -/
theorem visitDownload_told {v : DownloadVisit} (h : ∀ p ∈ v.plan, p.Ordered)
    (maxAttempts : ℕ) (manifestId : Text) (artifact : Artifact) :
    Keeps (fun s => Told s.openings) (visitDownload D maxAttempts manifestId artifact v) := by
  refine Keeps.bind Keeps.get fun s => ?_
  cases cachedBlake3 s.disk.cache artifact with
  | some blake3 => exact Keeps.bind (fun _ h => h) fun _ => Keeps.pure _
  | none =>
    refine Keeps.ite (Keeps.throw _) (Keeps.ite (Keeps.throw _) ?_)
    refine Keeps.bind (fun _ h => h) fun _ => Keeps.bind Keeps.get fun s => ?_
    exact Keeps.bind (fun _ h => h) fun _ => visitSources_told h _ none

end Visit

/-- **The life of a ban.** After any results in any order a source is banned if and only if it
served bad bytes since it last served good ones, and the ban has the time of the last of them.
And a download opens no stream of a source that is kept out then if and only if nothing that
others record of the source between its check and the opening keeps it out: no failure for bad
bytes, that is, but one which a success came after, or which is hours old. -/
theorem visitDownload_openings_iff (D : Digests) (maxAttempts : ℕ) (manifestId : Text)
    (artifact : Artifact) {v : DownloadVisit} (hordered : ∀ p ∈ v.plan, p.Ordered)
    {s : Session} (hfresh : s.openings = []) :
    (∀ sourceId history,
      ((healthAfter sourceId history).banned = true ↔
        ∃ before τ after, history = before ++ ⟨sourceId, .integrityFailure, τ⟩ :: after ∧
          ∀ r ∈ after, r.sourceId = sourceId → r.outcome ≠ .success) ∧
      ∀ τ, (healthAfter sourceId history).bannedAt = some τ ↔
        BannedSince sourceId τ history) ∧
    ((∀ o ∈ (visitDownload D maxAttempts manifestId artifact v s).2.openings,
        banActive o.now o.health = false) ↔
      ∀ o ∈ (visitDownload D maxAttempts manifestId artifact v s).2.openings,
        o.Unprovoked) := by
  refine ⟨fun sourceId history => ⟨ban_iff, fun τ => bannedAt_iff⟩, ?_⟩
  have hstart : Told s.openings := by
    rw [hfresh]
    exact List.forall_mem_nil _
  have htold := @visitDownload_told D v hordered maxAttempts manifestId artifact s hstart
  exact forall₂_congr htold

/-! ## A ban between two attempts -/

/-- A mirror of a small file, the one source the artifact below has. -/
def configMirror : Source := .httpsMirror "https://mirror.example/config.json".toList .none

/-- The file, three bytes long and declared by a SHA-256 that no content of the example has. -/
def mirroredArtifact : Artifact where
  path := "config.json".toList
  sizeBytes := 3
  hashes := ⟨[], List.replicate 64 '0', []⟩
  chunking := none
  sources := [configMirror]

/-- The mirror does not answer in time, which is an ordinary failure and says nothing about
its bytes. -/
def unansweredAttempt : Attempt where
  cancelPolls := fun _ => false
  opened := .error ⟨.transport configMirror.sourceId .timeout, rfl⟩
  now := 10

/-- A download from the mirror, and what another transfer records before its second attempt. -/
def retriedDownload (others : List SourceResult) : DownloadVisit where
  cancelled := false
  discard := false
  plan := [{
    source := configMirror
    cancelled := false
    check := ⟨[], 0⟩
    visit :=
      { run :=
          { preflight := .ok ()
            connections := 1
            rateLimited := false
            cancelled := false
            segmented := ⟨[], false, fun _ => false, 0⟩
            attempts := fun _ => unansweredAttempt }
        connections := fun _ => ⟨[], 0⟩
        gaps := fun k => ⟨if k = 1 then others else [], 20⟩
        moves := fun _ => ⟨0, []⟩ } }]
  excluded := []
  buildsTree := false

theorem retriedDownload_ordered (others : List SourceResult) :
    ∀ p ∈ (retriedDownload others).plan, p.Ordered :=
  List.forall_mem_singleton.mpr ⟨fun _ => Nat.le_refl 0, fun _ => Nat.zero_le 20⟩

/-- The store when others' results came between the attempts, as they may while a retry waits. -/
def retriedSession (others : List SourceResult) : Session :=
  (visitDownload ⟨id, id, id⟩ 2 "m".toList mirroredArtifact (retriedDownload others)
    Session.empty).2

/-- Another transfer fails at the mirror too: nobody is kept out. -/
theorem retried_openings :
    (∀ p ∈ (retriedDownload [⟨configMirror.sourceId, .networkFailure, 15⟩]).plan, p.Ordered) ∧
      ∀ o ∈ (retriedSession [⟨configMirror.sourceId, .networkFailure, 15⟩]).openings,
        banActive o.now o.health = false := by
  refine ⟨retriedDownload_ordered _, ?_⟩
  refine (visitDownload_openings_iff ⟨id, id, id⟩ 2 "m".toList mirroredArtifact
    (retriedDownload_ordered _) rfl).2.mpr ?_
  have hsince : ∀ o ∈ (retriedSession [⟨configMirror.sourceId, .networkFailure, 15⟩]).openings,
      ∀ r ∈ o.since, r.outcome = .networkFailure := by decide +kernel
  rintro o ho τ ⟨before, after, hsplit, -⟩
  have hmem : ⟨o.sourceId, .integrityFailure, τ⟩ ∈ o.since := by
    rw [hsplit]
    exact List.mem_append_right _ List.mem_cons_self
  exact nomatch hsince o ho _ hmem

/-- **Another transfer gets bad bytes of the mirror**, and the second attempt opens its stream
all the same. -/
theorem retried_banned :
    ¬ ∀ (D : Digests) (maxAttempts : ℕ) (manifestId : Text) (artifact : Artifact)
      (v : DownloadVisit) (s : Session), (∀ p ∈ v.plan, p.Ordered) → s.openings = [] →
        ∀ o ∈ (visitDownload D maxAttempts manifestId artifact v s).2.openings,
          banActive o.now o.health = false := by
  intro h
  have hopenings := h ⟨id, id, id⟩ 2 "m".toList mirroredArtifact
    (retriedDownload [⟨configMirror.sourceId, .integrityFailure, 15⟩]) Session.empty
    (retriedDownload_ordered _) rfl
  exact absurd hopenings (by decide +kernel)

end Atlas
