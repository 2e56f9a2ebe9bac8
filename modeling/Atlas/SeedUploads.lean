import Atlas.Readings
import Atlas.SeedRuns

/-!
# What a blob has uploaded in its lifetime

The session counts what it uploads of a torrent from when the torrent is added; removing
the torrent, or ending the session, ends the count. How much a blob has uploaded ever is
kept in the database: every half minute a watcher adds the counts of the blob's torrents
to a baseline it read when it first came to the blob in this session, and stores that.
The caps on the ratio of upload to size are held against it, by the watcher and by a
promotion that has added its torrent.

The registry of seeds is that of `SeedRegistry`, with every interleaving of calls and
promotions there is. `lifetime_upload` says in which runs the stored number is the sum of
the last counts the watcher saw. A blob that is unseeded and seeded again within a session
is not in them: its count starts over, and the baseline does not.
-/

namespace Atlas

open AList Transition Readings

/-- From when a torrent is added to the session to when it is removed or the session ends. -/
structure SeedPeriod where
  session : ℕ
  /-- When it began. -/
  serial : ℕ
  id : ℕ
  deriving DecidableEq, Repr

/-- What the session knows of a torrent: how much it has uploaded, how large it is, and
since when. -/
structure TorrentStats where
  uploadedBytes : ℕ
  totalBytes : ℕ
  /-- Which period is counted. -/
  period : SeedPeriod

/-- The registry of seeds and its session, the database, and the watcher. -/
structure SeedUploads (Hash : Type) where
  registry : SeedRegistry Hash
  stats : ℕ → TorrentStats
  /-- The column `uploaded_bytes`, as 64 bits; 0 where there is no row. -/
  btUploaded : Text → ℕ
  /-- Per-blob persisted-upload baseline, read once and held for the session. -/
  baselines : Text → Option ℕ
  /-- The blobs that the watcher has yet to go through, with their torrents. -/
  work : List (Text × List ℕ)
  /-- Which session it is. -/
  session : ℕ
  /-- A clock, to tell periods apart. -/
  clock : ℕ
  /-- What the watcher saw of a blob, the latest first. The code does not keep this. -/
  seen : Text → List (SeedPeriod × ℕ)

/-- What happens: seeding goes on, torrents upload, the watch ticks, and the process starts
again. -/
inductive UploadEvent where
  /-- A call or a promotion takes a step; a torrent it adds has this size. -/
  | seed (event : SeedEvent) (size : ℕ)
  /-- The session uploads some of a torrent. -/
  | upload (id bytes : ℕ)
  /-- The watcher takes down which blobs there are, in the order of the table. -/
  | tick (order : List Text)
  /-- The watcher goes through the next blob. -/
  | watch
  /-- The process ends and starts again. The session has its torrents again, but for
  these. -/
  | restart (lost : List ℕ)
  deriving DecidableEq, Repr

namespace SeedUploads

variable {Hash : Type}

/-- Nothing was ever seeded, and no upload was ever stored. -/
def new : SeedUploads Hash where
  registry := .new
  stats := fun id => ⟨0, 0, ⟨0, 0, id⟩⟩
  btUploaded := fun _ => 0
  baselines := fun _ => none
  work := []
  session := 0
  clock := 0
  seen := fun _ => []

/-- The torrents in the session, by their numbers. -/
def ids (s : SeedUploads Hash) : List ℕ := s.registry.torrents.map Prod.fst

/-- The stored lifetime upload. The column is signed, and less than nothing counts as nothing. -/
def loadUploaded (blob : Text) (s : SeedUploads Hash) : ℕ :=
  if s.btUploaded blob < 2 ^ 63 then s.btUploaded blob else 0

/-- A call or a promotion takes a step. A torrent that is added counts from 0. -/
def seed [DecidableEq Hash] (infoHash : Text → Text → Hash) (event : SeedEvent) (size : ℕ)
    (s : SeedUploads Hash) : SeedUploads Hash :=
  let registry := s.registry.step infoHash event
  { s with
    registry := registry
    clock := s.clock + 1
    stats := fun id =>
      if id ∈ registry.torrents.map Prod.fst ∧ id ∉ s.ids then
        ⟨0, size, ⟨s.session, s.clock, id⟩⟩
      else s.stats id }

/-- The session uploads some of a torrent, and its counter grows. -/
def upload (id bytes : ℕ) (s : SeedUploads Hash) : SeedUploads Hash :=
  { s with
    stats := Function.update s.stats id
      { s.stats id with uploadedBytes := (s.stats id).uploadedBytes + bytes } }

/-- The torrents of a blob that the watcher finds in the session. -/
def handles (ids : List ℕ) (s : SeedUploads Hash) : List ℕ := ids.filter fun id => id ∈ s.ids

/-- The watcher finds a torrent of a blob, and its size is known. -/
def Finds (ids : List ℕ) (s : SeedUploads Hash) : Prop :=
  s.handles ids ≠ [] ∧ ∃ id ∈ s.handles ids, (s.stats id).totalBytes ≠ 0

instance decidableFinds (ids : List ℕ) (s : SeedUploads Hash) : Decidable (s.Finds ids) :=
  inferInstanceAs (Decidable (_ ∧ ∃ _ ∈ _, _))

/-- What this session uploaded, over the torrents of a blob, as the counters of their
torrents stand, which start at 0 with each torrent. -/
def sessionUploaded (ids : List ℕ) (s : SeedUploads Hash) : ℕ :=
  ((s.handles ids).map fun id => (s.stats id).uploadedBytes).sum

/-- The persisted baseline, read once in a session and kept from then on. -/
def baseline (blob : Text) (s : SeedUploads Hash) : ℕ :=
  (s.baselines blob).getD (s.loadUploaded blob)

/-- Lifetime upload: the baseline and this session, in 64 bits. -/
def lifetime (blob : Text) (ids : List ℕ) (s : SeedUploads Hash) : ℕ :=
  (s.baseline blob + s.sessionUploaded ids) % 2 ^ 64

/-- The watcher goes through one blob: if its torrents are found, the lifetime is stored. -/
def watchBlob (blob : Text) (ids : List ℕ) (s : SeedUploads Hash) : SeedUploads Hash :=
  if s.Finds ids then
    { s with
      baselines := Function.update s.baselines blob (some (s.baseline blob))
      btUploaded := Function.update s.btUploaded blob (s.lifetime blob ids)
      seen := Function.update s.seen blob
        (round (fun id => (s.stats id).period) (fun id => (s.stats id).uploadedBytes)
          (s.handles ids) ++ s.seen blob) }
  else s

/-- The process ends and starts again; some torrents come back with counters at zero, and
some are lost. -/
def restart (lost : List ℕ) (s : SeedUploads Hash) : SeedUploads Hash :=
  { s with
    registry := { (.new : SeedRegistry Hash) with
      torrents := s.registry.torrents.filter fun torrent => torrent.1 ∉ lost }
    stats := fun id => ⟨0, (s.stats id).totalBytes, ⟨s.session + 1, s.clock, id⟩⟩
    baselines := fun _ => none
    work := []
    session := s.session + 1
    clock := s.clock + 1 }

/-- One step: the torrents that are seeded change, bytes are uploaded, a tick sets out to read
the counters and reads those of one blob after another, or the application starts anew. -/
def step [DecidableEq Hash] (infoHash : Text → Text → Hash) (s : SeedUploads Hash) :
    UploadEvent → SeedUploads Hash
  | .seed event size => s.seed infoHash event size
  | .upload id bytes => if id ∈ s.ids then s.upload id bytes else s
  | .tick order =>
    match s.work with
    | [] =>
      { s with
        work := order.filterMap fun blob =>
          if s.registry.listed blob = [] then none
          else some (blob, s.registry.listed blob) }
    | _ :: _ => s
  | .watch =>
    match s.work with
    | [] => s
    | (blob, ids) :: work => { s with work := work }.watchBlob blob ids
  | .restart lost => s.restart lost

/-- The promotion that an event makes put its torrent into the table: the blob, and the torrent. -/
def recorded (event : SeedEvent) (s : SeedUploads Hash) : Option (Text × ℕ) :=
  match event with
  | .advance k _ _ =>
    match s.registry.tasks[k]? with
    | some p =>
      match p.point with
      | .record id =>
        if (s.registry.seeds.lookup p.blob).isSome && p.wanted then some (p.blob, id) else none
      | _ => none
    | none => none
  | _ => none

/-- The figure that a cap on a blob's ratio is held against: by the watcher when it goes
through the blob, and by a promotion that has put its torrent into the table. -/
def capFigure (s : SeedUploads Hash) : UploadEvent → Option (Text × ℕ)
  | .watch =>
    match s.work with
    | [] => none
    | (blob, ids) :: _ => if s.Finds ids then some (blob, s.lifetime blob ids) else none
  | .seed event _ =>
    match s.recorded event with
    | some (blob, id) => some (blob, s.loadUploaded blob + (s.stats id).uploadedBytes)
    | none => none
  | _ => none

/-! ## What the watcher may find -/

/-- The counts of a blob's torrents continue what the watcher saw of the blob in this session. -/
structure Continues (blob : Text) (ids : List ℕ) (s : SeedUploads Hash) : Prop where
  /-- No torrent that has uploaded something is listed twice. -/
  once : ∀ id ∈ s.handles ids, 1 < (s.handles ids).count id → (s.stats id).uploadedBytes = 0
  /-- None that was seen to have uploaded something is gone. -/
  kept : ∀ p ∈ periods (s.seen blob), p.session = s.session →
    last p (s.seen blob) = 0 ∨ ∃ id ∈ s.handles ids, (s.stats id).period = p
  /-- The column has room for the sum. -/
  fits : s.baseline blob + s.sessionUploaded ids < 2 ^ 63

/-- The condition on a step: where the watcher goes through a blob, the counts continue
what it saw; a promotion finds that its torrent has not uploaded anything yet. -/
def Safe (s : SeedUploads Hash) : UploadEvent → Prop
  | .watch => ∀ x ∈ s.work.head?, s.Finds x.2 → s.Continues x.1 x.2
  | .seed event _ => ∀ x ∈ s.recorded event, (s.stats x.2).uploadedBytes = 0
  | _ => True

/-! ## The sum over all periods -/

/-- The stored numbers are the sums of the last counts that were seen. -/
structure Telescoped (s : SeedUploads Hash) : Prop where
  stored : ∀ blob, s.loadUploaded blob = total (s.seen blob)
  /-- A baseline is what the sessions before this one left. -/
  baseline : ∀ blob b, s.baselines blob = some b →
    b = totalOf (fun p => ¬ p.session = s.session) (s.seen blob)
  /-- The watcher has not been at a blob in this session if it has no baseline. -/
  unread : ∀ blob, s.baselines blob = none →
    ∀ p ∈ periods (s.seen blob), ¬ p.session = s.session
  /-- Counts only grow. -/
  behind : ∀ blob, ∀ id ∈ s.ids, last (s.stats id).period (s.seen blob) ≤ (s.stats id).uploadedBytes
  current : ∀ id ∈ s.ids, (s.stats id).period.session = s.session ∧
    (s.stats id).period.serial < s.clock ∧ (s.stats id).period.id = id
  past : ∀ blob, ∀ p ∈ periods (s.seen blob), p.session ≤ s.session ∧ p.serial < s.clock

section Upload

variable {s : SeedUploads Hash} (id bytes id' : ℕ)

@[simp] theorem upload_period : ((s.upload id bytes).stats id').period = (s.stats id').period := by
  unfold upload
  by_cases heq : id' = id
  · rw [heq]
    simp
  · simp [heq]

theorem le_upload_uploadedBytes :
    (s.stats id').uploadedBytes ≤ ((s.upload id bytes).stats id').uploadedBytes := by
  unfold upload
  by_cases heq : id' = id
  · rw [heq]
    simp
  · simp [heq]

end Upload

namespace Telescoped

variable {s : SeedUploads Hash}

theorem new : Telescoped (.new : SeedUploads Hash) where
  stored := fun _ => rfl
  baseline := fun _ _ h => by cases h
  unread := fun _ _ p hp => absurd hp (Finset.notMem_empty p)
  behind := fun _ _ hid => absurd hid List.not_mem_nil
  current := fun _ hid => absurd hid List.not_mem_nil
  past := fun _ p hp => absurd hp (Finset.notMem_empty p)

/-- A period that has not begun was not seen. -/
theorem last_unborn (h : s.Telescoped) {blob : Text} {p : SeedPeriod} (hp : s.clock ≤ p.serial) :
    last p (s.seen blob) = 0 :=
  last_of_notMem fun hmem => absurd (h.past blob p hmem).2 (Nat.not_lt.mpr hp)

/-- A call or a promotion takes a step. -/
theorem seed [DecidableEq Hash] (h : s.Telescoped) (infoHash : Text → Text → Hash)
    (event : SeedEvent) (size : ℕ) : Telescoped (s.seed infoHash event size) where
  stored := h.stored
  baseline := h.baseline
  unread := h.unread
  behind := fun blob id hid => by
    show last (ite _ _ _ : TorrentStats).period (s.seen blob) ≤
      (ite _ _ _ : TorrentStats).uploadedBytes
    by_cases hnew : id ∉ s.ids
    · rw [if_pos ⟨hid, hnew⟩]
      exact Nat.le_of_eq (h.last_unborn (Nat.le_refl _))
    · rw [if_neg fun hboth => hnew hboth.2]
      exact h.behind blob id (not_not.mp hnew)
  current := fun id hid => by
    show (ite _ _ _ : TorrentStats).period.session = _ ∧
      (ite _ _ _ : TorrentStats).period.serial < _ ∧ (ite _ _ _ : TorrentStats).period.id = _
    by_cases hnew : id ∉ s.ids
    · rw [if_pos ⟨hid, hnew⟩]
      exact ⟨rfl, Nat.lt_succ_self _, rfl⟩
    · rw [if_neg fun hboth => hnew hboth.2]
      obtain ⟨hsession, hserial, hself⟩ := h.current id (not_not.mp hnew)
      exact ⟨hsession, Nat.lt_succ_of_lt hserial, hself⟩
  past := fun blob p hp => ⟨(h.past blob p hp).1, Nat.lt_succ_of_lt (h.past blob p hp).2⟩

/-- The session uploads some of a torrent. -/
theorem upload (h : s.Telescoped) (id bytes : ℕ) : Telescoped (s.upload id bytes) where
  stored := h.stored
  baseline := h.baseline
  unread := h.unread
  behind := fun blob id' hid => by
    rw [upload_period]
    exact (h.behind blob id' hid).trans (le_upload_uploadedBytes id bytes id')
  current := fun id' hid => by
    rw [upload_period]
    exact h.current id' hid
  past := h.past

theorem setWork (h : s.Telescoped) (work : List (Text × List ℕ)) :
    Telescoped { s with work := work } where
  stored := h.stored
  baseline := h.baseline
  unread := h.unread
  behind := h.behind
  current := h.current
  past := h.past

/-- **A new session counts from what all sessions before it left.** -/
theorem restart (h : s.Telescoped) (lost : List ℕ) : Telescoped (s.restart lost) where
  stored := h.stored
  baseline := fun _ _ hb => by cases hb
  unread := fun blob _ p hp heq =>
    absurd (h.past blob p hp).1 (Nat.not_le.mpr (Nat.lt_of_lt_of_eq (Nat.lt_succ_self _) heq.symm))
  behind := fun _ _ _ => Nat.le_of_eq (h.last_unborn (Nat.le_refl _))
  current := fun _ _ => ⟨rfl, Nat.lt_succ_self _, rfl⟩
  past := fun blob p hp =>
    ⟨Nat.le_succ_of_le (h.past blob p hp).1, Nat.lt_succ_of_lt (h.past blob p hp).2⟩

/-! ### One blob -/

section Watch

variable {blob : Text} {ids : List ℕ}

theorem mem_ids_of_mem_handles {id : ℕ} (hid : id ∈ s.handles ids) : id ∈ s.ids :=
  of_decide_eq_true (List.mem_filter.mp hid).2

/-- The baseline is what the sessions before this one left, also when it is read now. -/
theorem baseline_eq (h : s.Telescoped) (blob : Text) :
    s.baseline blob = totalOf (fun p => ¬ p.session = s.session) (s.seen blob) := by
  unfold SeedUploads.baseline
  cases hb : s.baselines blob with
  | some b => exact h.baseline blob b hb
  | none =>
    show s.loadUploaded blob = _
    have hnone : totalOf (fun p => p.session = s.session) (s.seen blob) = 0 := by
      unfold totalOf
      rw [Finset.filter_false_of_mem (h.unread blob hb), Finset.sum_empty]
    rw [h.stored, ← totalOf_add_totalOf_not (fun p => p.session = s.session), hnone,
      Nat.zero_add]

/-- The periods that are read in a round are of this session, and each is a torrent's. -/
theorem period_inj (h : s.Telescoped) :
    ∀ i ∈ s.handles ids, ∀ j ∈ s.handles ids,
      (s.stats i).period = (s.stats j).period → i = j := by
  intro i hi j hj heq
  rw [← (h.current i (mem_ids_of_mem_handles hi)).2.2,
    ← (h.current j (mem_ids_of_mem_handles hj)).2.2, heq]

/-- **The sum telescopes**: baseline and session are all that was ever seen. -/
theorem total_round (h : s.Telescoped) (hcont : s.Continues blob ids) :
    total (round (fun id => (s.stats id).period) (fun id => (s.stats id).uploadedBytes)
        (s.handles ids) ++ s.seen blob) =
      s.baseline blob + s.sessionUploaded ids := by
  have hsession : ∀ i ∈ s.handles ids, (s.stats i).period.session = s.session := fun i hi =>
    (h.current i (mem_ids_of_mem_handles hi)).1
  rw [← totalOf_add_totalOf_not (fun p => p.session = s.session),
    totalOf_round h.period_inj hsession hcont.kept hcont.once, totalOf_append_of_not,
    ← h.baseline_eq, Nat.add_comm]
  · rfl
  · intro p hp hne
    obtain ⟨i, hi, rfl⟩ := mem_periods_round.mp hp
    exact hne (hsession i hi)

/-- What is seen is never less than what was. -/
theorem total_le_round (h : s.Telescoped) (blob : Text) (ids : List ℕ) :
    total (s.seen blob) ≤
      total (round (fun id => (s.stats id).period) (fun id => (s.stats id).uploadedBytes)
        (s.handles ids) ++ s.seen blob) := by
  refine total_le_append fun p hp => ?_
  obtain ⟨i, hi, rfl⟩ := mem_periods_round.mp hp
  rw [last_round h.period_inj hi]
  exact h.behind blob i (mem_ids_of_mem_handles hi)

/-- What is computed fits into the column, and is what was seen. -/
theorem lifetime_eq (h : s.Telescoped) (hcont : s.Continues blob ids) :
    s.lifetime blob ids < 2 ^ 63 ∧
      s.lifetime blob ids =
        total (round (fun id => (s.stats id).period) (fun id => (s.stats id).uploadedBytes)
          (s.handles ids) ++ s.seen blob) := by
  have hmod : s.lifetime blob ids = s.baseline blob + s.sessionUploaded ids :=
    Nat.mod_eq_of_lt (Nat.lt_trans hcont.fits (by decide))
  rw [hmod, h.total_round hcont]
  exact ⟨hcont.fits, rfl⟩

/-- What the watcher stores for a blob, and for the others. -/
theorem loadUploaded_watchBlob (h : s.Telescoped) (hfinds : s.Finds ids)
    (hcont : s.Continues blob ids) (blob' : Text) :
    (s.watchBlob blob ids).loadUploaded blob' =
      if blob' = blob then s.lifetime blob ids else s.loadUploaded blob' := by
  unfold watchBlob
  rw [if_pos hfinds]
  show (if Function.update s.btUploaded blob (s.lifetime blob ids) blob' < 2 ^ 63 then
    Function.update s.btUploaded blob (s.lifetime blob ids) blob' else 0) = _
  by_cases heq : blob' = blob
  · rw [heq, Function.update_self, if_pos (h.lifetime_eq hcont).1, if_pos rfl]
  · rw [Function.update_of_ne heq, if_neg heq]
    rfl

/-- The watcher goes through a blob. -/
theorem watchBlob (h : s.Telescoped) (hcont : s.Finds ids → s.Continues blob ids) :
    Telescoped (s.watchBlob blob ids) := by
  by_cases hfinds : s.Finds ids
  swap
  · unfold SeedUploads.watchBlob
    rw [if_neg hfinds]
    exact h
  have hstored (blob' : Text) := h.loadUploaded_watchBlob hfinds (hcont hfinds) blob'
  have hold : ∀ p ∈ periods (round (fun id => (s.stats id).period)
      (fun id => (s.stats id).uploadedBytes) (s.handles ids)), p.session = s.session := by
    intro p hp
    obtain ⟨i, hi, rfl⟩ := mem_periods_round.mp hp
    exact (h.current i (mem_ids_of_mem_handles hi)).1
  have hpast : ∀ p ∈ periods (round (fun id => (s.stats id).period)
      (fun id => (s.stats id).uploadedBytes) (s.handles ids)),
      p.session ≤ s.session ∧ p.serial < s.clock := by
    intro p hp
    obtain ⟨i, hi, rfl⟩ := mem_periods_round.mp hp
    obtain ⟨hsession, hserial, -⟩ := h.current i (mem_ids_of_mem_handles hi)
    exact ⟨Nat.le_of_eq hsession, hserial⟩
  have hstate := SeedUploads.watchBlob.eq_1 blob ids s
  rw [if_pos hfinds] at hstate
  rw [hstate] at hstored ⊢
  refine ⟨fun blob' => ?_, fun blob' b hb => ?_, fun blob' hb p hp => ?_, fun blob' id hid => ?_,
    h.current, fun blob' p hp => ?_⟩
  · rw [hstored]
    by_cases heq : blob' = blob
    · rw [if_pos heq, heq, (h.lifetime_eq (hcont hfinds)).2]
      simp
    · rw [if_neg heq, h.stored]
      simp [heq]
  · by_cases heq : blob' = blob
    · subst heq
      have hb' : some (s.baseline blob') = some b := by simpa using hb
      have hround := totalOf_append_of_not (K := fun p => ¬ p.session = s.session)
        (fun p hp => not_not.mpr (hold p hp)) (s.seen blob')
      simp only [Function.update_self]
      rw [← Option.some.inj hb', h.baseline_eq, hround]
    · have hb' : s.baselines blob' = some b := by simpa [heq] using hb
      simpa [heq] using h.baseline blob' b hb'
  · by_cases heq : blob' = blob
    · subst heq
      simp at hb
    · have hb' : s.baselines blob' = none := by simpa [heq] using hb
      have hp' : p ∈ periods (s.seen blob') := by simpa [heq] using hp
      exact h.unread blob' hb' p hp'
  · by_cases heq : blob' = blob
    · subst heq
      simp only [Function.update_self]
      rw [last_append]
      by_cases hread : (s.stats id).period ∈ periods (round (fun id => (s.stats id).period)
          (fun id => (s.stats id).uploadedBytes) (s.handles ids))
      · -- the period was read in the round, and no other torrent has it
        rw [if_pos hread]
        obtain ⟨i, hi, hperiod⟩ := mem_periods_round.mp hread
        have hid' : i = id := by
          rw [← (h.current i (mem_ids_of_mem_handles hi)).2.2, ← (h.current id hid).2.2, hperiod]
        rw [← hid', last_round h.period_inj hi]
      · rw [if_neg hread]
        exact h.behind blob' id hid
    · simpa [heq] using h.behind blob' id hid
  · by_cases heq : blob' = blob
    · subst heq
      simp only [Function.update_self] at hp
      rw [periods_append] at hp
      exact (Finset.mem_union.mp hp).elim (hpast p) (h.past blob' p)
    · have hp' : p ∈ periods (s.seen blob') := by simpa [heq] using hp
      exact h.past blob' p hp'

end Watch

/-- **Every step that meets the condition keeps the sums.** -/
theorem step [DecidableEq Hash] (h : s.Telescoped) (infoHash : Text → Text → Hash)
    (event : UploadEvent) (hsafe : s.Safe event) : Telescoped (s.step infoHash event) := by
  cases event with
  | seed event size => exact h.seed infoHash event size
  | upload id bytes =>
    show Telescoped (if id ∈ s.ids then s.upload id bytes else s)
    split
    · exact h.upload id bytes
    · exact h
  | tick order =>
    unfold SeedUploads.step
    dsimp only
    split
    · exact h.setWork _
    · exact h
  | watch =>
    unfold SeedUploads.step
    dsimp only
    split
    · exact h
    · rename_i blob ids work hwork
      refine (h.setWork work).watchBlob fun hfinds => ?_
      have hcont : s.Continues blob ids := hsafe (blob, ids) (by rw [hwork]; rfl) hfinds
      exact ⟨hcont.once, hcont.kept, hcont.fits⟩
  | restart lost => exact h.restart lost

/-- No step takes anything away from what is stored. -/
theorem le_step [DecidableEq Hash] (h : s.Telescoped) (infoHash : Text → Text → Hash)
    (event : UploadEvent) (hsafe : s.Safe event) (blob : Text) :
    s.loadUploaded blob ≤ (s.step infoHash event).loadUploaded blob := by
  have hnext := h.step infoHash event hsafe
  rw [h.stored, hnext.stored]
  cases event with
  | watch =>
    unfold SeedUploads.step
    dsimp only
    split
    · exact Nat.le_refl _
    · rename_i blob' ids work hwork
      unfold SeedUploads.watchBlob
      split
      · by_cases heq : blob = blob'
        · subst heq
          simp only [Function.update_self]
          exact (h.setWork work).total_le_round blob ids
        · simp [heq]
      · exact Nat.le_refl _
  | seed event size => exact Nat.le_refl _
  | upload id bytes =>
    show total (s.seen blob) ≤ total ((if id ∈ s.ids then s.upload id bytes else s).seen blob)
    split <;> exact Nat.le_refl _
  | tick order =>
    unfold SeedUploads.step
    dsimp only
    split <;> exact Nat.le_refl _
  | restart lost => exact Nat.le_refl _

/-- A cap is held against what is stored. -/
theorem capFigure_eq [DecidableEq Hash] (h : s.Telescoped) (infoHash : Text → Text → Hash)
    (event : UploadEvent) (hsafe : s.Safe event) (x : Text × ℕ) (hx : x ∈ s.capFigure event) :
    x.2 = (s.step infoHash event).loadUploaded x.1 := by
  -- the cap is read only in the watch and when a seed is recorded; `Safe` says in both that the
  -- session counts from the stored baseline
  cases event with
  | watch =>
    unfold SeedUploads.capFigure at hx
    unfold SeedUploads.step
    dsimp only at hx ⊢
    split
    · rename_i hwork
      rw [hwork] at hx
      cases hx
    · rename_i blob ids work hwork
      rw [hwork] at hx
      dsimp only at hx
      split at hx
      · rename_i hfinds
        cases hx
        have hcont : s.Continues blob ids := hsafe (blob, ids) (by rw [hwork]; rfl) hfinds
        have hcont' : Continues blob ids { s with work := work } :=
          ⟨hcont.once, hcont.kept, hcont.fits⟩
        have hstored := (h.setWork work).loadUploaded_watchBlob hfinds hcont' blob
        rw [hstored, if_pos rfl]
        rfl
      · cases hx
  | seed event size =>
    unfold SeedUploads.capFigure at hx
    dsimp only at hx
    split at hx
    · rename_i blob id hrecorded
      cases hx
      show s.loadUploaded blob + (s.stats id).uploadedBytes = s.loadUploaded blob
      rw [hsafe (blob, id) hrecorded]
      rfl
    · cases hx
  | upload id bytes => cases hx
  | tick order => cases hx
  | restart lost => cases hx

end Telescoped

end SeedUploads

open SeedUploads

variable {Hash : Type} [DecidableEq Hash]

/-- **Lifetime upload never goes backwards** in any run of calls, promotions, ticks and
restarts in which every step meets the condition: what is stored for a blob is the sum,
over all the periods in which a torrent of it was seeded, of the last count the watcher
saw; it never becomes less; and it is what the caps on the ratio are held against. -/
theorem lifetime_upload (infoHash : Text → Text → Hash) (run : List UploadEvent)
    (hsafe : Along (step infoHash) Safe run (new : SeedUploads Hash)) :
    (∀ blob, (run.foldl (step infoHash) new).loadUploaded blob =
        total ((run.foldl (step infoHash) new).seen blob)) ∧
      (∀ more, Along (step infoHash) Safe more (run.foldl (step infoHash) new) → ∀ blob,
        (run.foldl (step infoHash) new).loadUploaded blob ≤
          ((run ++ more).foldl (step infoHash) new).loadUploaded blob) ∧
      ∀ event, (run.foldl (step infoHash) new).Safe event →
        ∀ x ∈ (run.foldl (step infoHash) new).capFigure event,
          x.2 = ((run ++ [event]).foldl (step infoHash) new).loadUploaded x.1 := by
  have hsum : (run.foldl (step infoHash) (new : SeedUploads Hash)).Telescoped :=
    Along.invariant (fun s event h hevent => h.step infoHash event hevent) .new hsafe
  refine ⟨hsum.stored, fun more hmore blob => ?_, fun event hevent x hx => ?_⟩
  · rw [List.foldl_append]
    generalize run.foldl (step infoHash) (new : SeedUploads Hash) = s at hsum hmore
    have hboth := Along.invariant
      (I := fun s' => s'.Telescoped ∧ s.loadUploaded blob ≤ s'.loadUploaded blob)
      (fun s' event h hevent => ⟨h.1.step infoHash event hevent,
        h.2.trans (h.1.le_step infoHash event hevent blob)⟩)
      ⟨hsum, Nat.le_refl _⟩ hmore
    exact hboth.2
  · rw [List.foldl_append]
    exact hsum.capFigure_eq infoHash event hevent x hx

/-! ## A blob that is seeded again -/

/-- A promotion of a blob comes to its end, having added a torrent and put it into the table. -/
def seeded (blob : Text) (k id : ℕ) : List UploadEvent :=
  (SeedEvent.seedBlob blob "m/a.gguf".toList :: .register k ::
    List.replicate 7 (.advance k true id)).map fun event => .seed event 10

/-- A blob uploads 100 bytes, as the watcher sees, of which a tick and the watcher take note. -/
def uploaded : List UploadEvent :=
  seeded ['a'] 0 7 ++ [.upload 7 100, .tick [['a']], .watch]

/-- It is seeded in the next session again, and uploads 30 more. -/
def uploadedAgain : List UploadEvent :=
  uploaded ++ .restart [7] :: seeded ['a'] 0 7 ++ [.upload 7 30, .tick [['a']], .watch]

/-- It is unseeded and seeded again in the same session, with a new torrent, whose counter
starts again at 0. -/
def reseeded : List UploadEvent :=
  uploaded ++ [.seed (.unseed ['a']) 0, .seed (.cancel 0) 0, .seed (.delete 0 true) 0] ++
    seeded ['a'] 1 8 ++ [.tick [['a']]]


instance decidableContinues (blob : Text) (ids : List ℕ) (s : SeedUploads Hash) :
    Decidable (s.Continues blob ids) :=
  decidable_of_iff
    ((∀ id ∈ s.handles ids, 1 < (s.handles ids).count id → (s.stats id).uploadedBytes = 0) ∧
      (∀ p ∈ periods (s.seen blob), p.session = s.session →
        last p (s.seen blob) = 0 ∨ ∃ id ∈ s.handles ids, (s.stats id).period = p) ∧
      s.baseline blob + s.sessionUploaded ids < 2 ^ 63)
    ⟨fun ⟨once, kept, fits⟩ => ⟨once, kept, fits⟩, fun h => ⟨h.once, h.kept, h.fits⟩⟩

instance decidableSafeUpload (s : SeedUploads Hash) : ∀ event, Decidable (s.Safe event)
  | .watch => inferInstanceAs (Decidable (∀ _ ∈ _, _ → _))
  | .seed _ _ => inferInstanceAs (Decidable (∀ _ ∈ _, _))
  | .upload _ _ => .isTrue trivial
  | .tick _ => .isTrue trivial
  | .restart _ => .isTrue trivial

/-- The second session's count is added to the first one's. -/
theorem uploaded_again :
    let s := uploadedAgain.foldl (step Prod.mk) (new : SeedUploads (Text × Text))
    s.loadUploaded ['a'] = total (s.seen ['a']) ∧ s.loadUploaded ['a'] = 130 := by
  have hsafe : Along (step Prod.mk) Safe uploadedAgain (new : SeedUploads (Text × Text)) := by
    decide +kernel
  exact ⟨(lifetime_upload Prod.mk uploadedAgain hsafe).1 ['a'], by decide +kernel⟩

/-- **A blob that is seeded again loses what it uploaded**: the watcher stores the baseline
of the session's beginning and the new torrent's count. -/
theorem reseeded_goes_backwards :
    ¬ ∀ (run : List UploadEvent) (event : UploadEvent) (blob : Text),
      (run.foldl (step Prod.mk) (new : SeedUploads (Text × Text))).loadUploaded blob ≤
        ((run ++ [event]).foldl (step Prod.mk)
          (new : SeedUploads (Text × Text))).loadUploaded blob := by
  intro h
  exact absurd (h reseeded .watch ['a']) (by decide +kernel)

end Atlas
