import Mathlib.Data.List.AList
import Mathlib.Data.List.DropRight
import Atlas.KeyedTable
import Atlas.Text
import Atlas.Transition

/-!
# The registry of BitTorrent seeds

A blob is seeded by a background task: it waits for the session, reflinks the blob under
its model name, makes a torrent of it and adds that to the session. A table keyed by blob
knows the tasks that are on their way and the torrents that were added, so that a blob can
be unseeded at any time: its entry is taken out, its tasks are told to stop and aborted,
its torrents are deleted.

The task takes itself out of the table when it ends, by a guard it makes once it has a
session; it is put into the table by the call that spawned it, after it was spawned. And
an aborted task is dropped at whatever it waits for, which may be the session that has
just added its torrent. `seeds_match_session` is what the table is worth when none of this
comes in between; `phantom_seed` is what is left of a task whose session did not start.
-/

namespace Atlas

open AList Transition

/-! ## Promotions -/

/-- The part of a path after its last separator; both kinds of separators count, on every
system. -/
def basename (path : Text) : Text := path.rtakeWhile fun c => !(c = '/' || c = '\\')

/-- The name a blob's seed file gets: the last component of the model's path, or a default
where that is empty. -/
def seedFileName (name : Text) : Text :=
  if basename name = [] then "model.bin".toList else basename name

/-- Where a promotion is, between two of its steps; what it holds at each point is said
beside it. -/
inductive PromotionPoint where
  /-- Waits for the session; there is no guard yet. -/
  | session
  /-- Reflinks the blob. -/
  | link
  /-- Makes the torrent. -/
  | create
  /-- About to look for the last time whether it is wanted. -/
  | check
  /-- Waits for the session to add the torrent. -/
  | add
  /-- The session has the torrent, under this id; it is not in the table yet. -/
  | record (id : ℕ)
  /-- Was not wanted any more; about to delete the torrent again. -/
  | rollback (id : ℕ)
  /-- Is in the table; resumes or pauses the torrent. -/
  | resume
  | ended
  deriving DecidableEq, Repr

/-- The torrent a promotion has yet to record or to delete; at the other points of a
promotion no torrent waits to be told of. -/
def PromotionPoint.torrent : PromotionPoint → Option ℕ
  | .record id | .rollback id => some id
  | _ => none

/-- A promotion: the task and the flag it looks at, with what it still has to do before the
table knows its torrent. -/
structure Promotion where
  blob : Text
  name : Text
  wanted : Bool
  aborted : Bool
  /-- The call that spawned it has put it into the table. -/
  registered : Bool
  point : PromotionPoint
  deriving DecidableEq, Repr

/-- What the table knows of a blob: the promotions on their way, by number, and the ids
of the torrents that were added. -/
structure SeedEntry where
  promotions : List ℕ
  torrentIds : List ℕ
  deriving DecidableEq, Repr

/-- What a call of `unseed` or `unseed_detached` took out of the table and has yet to
cancel and to delete. -/
structure Unseed where
  blob : Text
  cancels : List ℕ
  deletes : List ℕ
  deriving DecidableEq, Repr

/-- The table of seeds, the tasks and calls that work on it, and the session. -/
structure SeedRegistry (Hash : Type) where
  seeds : AList fun _ : Text => SeedEntry
  tasks : List Promotion
  unseeds : List Unseed
  /-- The session is up. -/
  live : Bool
  /-- The torrents in the session, with the info-hashes they are found by. -/
  torrents : List (ℕ × Hash)

/-- What happens to a registry: calls of seeding and unseeding, and steps of the tasks they
leave behind. -/
inductive SeedEvent where
  /-- `seed_blob` spawns a promotion. -/
  | seedBlob (blob name : Text)
  /-- `seed_blob` puts a promotion it spawned into the table. -/
  | register (k : ℕ)
  /-- A promotion takes its next step, which works or not; the session would give a new
  torrent this id. -/
  | advance (k : ℕ) (ok : Bool) (fresh : ℕ)
  /-- An aborted promotion is dropped at what it waits for. -/
  | dropTask (k : ℕ)
  | unseed (blob : Text)
  /-- `unseed_detached`, inside a runtime or not. -/
  | unseedDetached (blob : Text) (runtime : Bool)
  /-- A call cancels the next promotion it took out. -/
  | cancel (i : ℕ)
  /-- A call deletes the next torrent it took out, if it has the session. -/
  | delete (i : ℕ) (ok : Bool)
  deriving DecidableEq, Repr

namespace SeedRegistry

variable {Hash : Type}

/-- Nothing is seeded, and nothing was when the session was last up. -/
def new : SeedRegistry Hash := ⟨∅, [], [], false, []⟩

/-- A promotion goes on to a point, and every other task stays where it is. -/
def goto (k : ℕ) (p : Promotion) (point : PromotionPoint) (s : SeedRegistry Hash) :
    SeedRegistry Hash :=
  { s with tasks := s.tasks.set k { p with point := point } }

/-- The guard of a promotion is dropped: it is no longer pending, and an entry left with
nothing is removed. -/
def dropGuard (k : ℕ) (blob : Text) (s : SeedRegistry Hash) : SeedRegistry Hash :=
  match s.seeds.lookup blob with
  | some entry =>
    let promotions := entry.promotions.filter (· ≠ k)
    if promotions = [] ∧ entry.torrentIds = [] then { s with seeds := s.seeds.erase blob }
    else { s with seeds := s.seeds.insert blob ⟨promotions, entry.torrentIds⟩ }
  | none => s

/-- A promotion ends, and its guard with it, whichever way it came to its end. -/
def finish (k : ℕ) (p : Promotion) (s : SeedRegistry Hash) : SeedRegistry Hash :=
  (s.dropGuard k p.blob).goto k p .ended

/-- The id of the torrent with an info-hash, if the session has it. -/
def idOf [DecidableEq Hash] (hash : Hash) (s : SeedRegistry Hash) : Option ℕ :=
  (s.torrents.find? fun torrent => torrent.2 = hash).map Prod.fst

/-- The session deletes a torrent, by its number, if it has it. -/
def deleteTorrent (id : ℕ) (s : SeedRegistry Hash) : SeedRegistry Hash :=
  { s with torrents := s.torrents.filter fun torrent => torrent.1 ≠ id }

/-- The session adds the torrent of a promotion, or finds that it has it. -/
def addTorrent [DecidableEq Hash] (k : ℕ) (p : Promotion) (hash : Hash) (fresh : ℕ)
    (s : SeedRegistry Hash) : SeedRegistry Hash :=
  match s.idOf hash with
  | some id => s.goto k p (.record id)
  | none =>
    if fresh ∈ s.torrents.map Prod.fst then s
    else { s with torrents := s.torrents ++ [(fresh, hash)] }.goto k p (.record fresh)

/-- The session has added the torrent: it is put into the table, or the promotion finds
that it is not wanted there. -/
def record (k : ℕ) (p : Promotion) (id : ℕ) (s : SeedRegistry Hash) : SeedRegistry Hash :=
  match s.seeds.lookup p.blob with
  | some entry =>
    if p.wanted then
      { s with
        seeds := s.seeds.insert p.blob
          ⟨entry.promotions.filter (· ≠ k), entry.torrentIds ++ [id]⟩ }.goto k p .resume
    else s.goto k p (.rollback id)
  | none => s.goto k p (.rollback id)

/-- The next step of a promotion, which may fail where `ok` is false, and adds a torrent
under the number `fresh`. -/
def advance [DecidableEq Hash] (infoHash : Text → Text → Hash) (k : ℕ) (p : Promotion)
    (ok : Bool) (fresh : ℕ) (s : SeedRegistry Hash) : SeedRegistry Hash :=
  match p.point with
  -- a session that is up is handed out; there is no guard to drop where it does not start
  | .session =>
    if s.live || ok then { s with live := true }.goto k p .link else s.goto k p .ended
  | .link => if ok && p.wanted then s.goto k p .create else s.finish k p
  | .create => if ok && p.wanted then s.goto k p .check else s.finish k p
  | .check => if p.wanted then s.goto k p .add else s.finish k p
  | .add =>
    if ok then s.addTorrent k p (infoHash p.blob (seedFileName p.name)) fresh
    else s.finish k p
  | .record id => s.record k p id
  | .rollback id => (s.deleteTorrent id).finish k p
  | .resume => s.finish k p
  | .ended => s

/-- An aborted promotion is dropped at what it waits for: while it waits for the session it
only ends, and later its guard cleans up. -/
def dropAt (k : ℕ) (p : Promotion) (s : SeedRegistry Hash) : SeedRegistry Hash :=
  match p.point with
  | .session => s.goto k p .ended
  -- between making the torrent and adding it there is nothing to wait for
  | .check => s
  | .ended => s
  | _ => s.finish k p

/-- A blob's entry is taken out of the table, and with it goes what the call still has to
cancel and to delete. -/
def takeOut (blob : Text) (deletes : Bool) (s : SeedRegistry Hash) : SeedRegistry Hash :=
  match s.seeds.lookup blob with
  | some entry =>
    { s with
      seeds := s.seeds.erase blob
      unseeds := s.unseeds ++
        [⟨blob, entry.promotions, if deletes then entry.torrentIds else []⟩] }
  | none => s

/-- A promotion is told to stop, and aborted at its next await. -/
def cancelTask (k : ℕ) (s : SeedRegistry Hash) : SeedRegistry Hash :=
  match s.tasks[k]? with
  | some p => { s with tasks := s.tasks.set k { p with wanted := false, aborted := true } }
  | none => s

/-- A call cancels the first of the promotions it has left; without any left the step
changes nothing. -/
def cancelNext (i : ℕ) (u : Unseed) (s : SeedRegistry Hash) : SeedRegistry Hash :=
  match u.cancels with
  | k :: cancels =>
    { s with unseeds := s.unseeds.set i { u with cancels := cancels } }.cancelTask k
  | [] => s

/-- A call that has cancelled all promotions deletes the first of the torrents it has
left, if it has the session. -/
def deleteNext (i : ℕ) (u : Unseed) (ok : Bool) (s : SeedRegistry Hash) :
    SeedRegistry Hash :=
  match u.cancels, u.deletes with
  | [], id :: deletes =>
    if s.live || ok then
      { s with
        live := true
        unseeds := s.unseeds.set i { u with deletes := deletes } }.deleteTorrent id
    else { s with unseeds := s.unseeds.set i { u with deletes := [] } }
  | _, _ => s

/-- One step of the registry: a blob is to be seeded, a task goes on with its next action,
or seeding is stopped. -/
def step [DecidableEq Hash] (infoHash : Text → Text → Hash) (s : SeedRegistry Hash) :
    SeedEvent → SeedRegistry Hash
  | .seedBlob blob name =>
    { s with tasks := s.tasks ++ [⟨blob, name, true, false, false, .session⟩] }
  | .register k =>
    match s.tasks[k]? with
    | some p =>
      if p.registered then s
      else
        let entry := (s.seeds.lookup p.blob).getD ⟨[], []⟩
        { s with
          seeds := s.seeds.insert p.blob ⟨entry.promotions ++ [k], entry.torrentIds⟩
          tasks := s.tasks.set k { p with registered := true } }
    | none => s
  | .advance k ok fresh =>
    match s.tasks[k]? with
    | some p => s.advance infoHash k p ok fresh
    | none => s
  | .dropTask k =>
    match s.tasks[k]? with
    | some p => if p.aborted then s.dropAt k p else s
    | none => s
  | .unseed blob => s.takeOut blob true
  | .unseedDetached blob runtime => s.takeOut blob (s.live && runtime)
  | .cancel i =>
    match s.unseeds[i]? with
    | some u => s.cancelNext i u
    | none => s
  | .delete i ok =>
    match s.unseeds[i]? with
    | some u => s.deleteNext i u ok
    | none => s

/-! ## What the table is for -/

/-- The torrents the table lists for a blob, in the order in which they were added. -/
def listed (s : SeedRegistry Hash) (blob : Text) : List ℕ :=
  match s.seeds.lookup blob with
  | some entry => entry.torrentIds
  | none => []

/-- The promotions the table lists for a blob, which have not finished. -/
def pending (s : SeedRegistry Hash) (blob : Text) : List ℕ :=
  match s.seeds.lookup blob with
  | some entry => entry.promotions
  | none => []

/-- A torrent of the blob is in the session, under the hash that the name and the content of
the blob determine. -/
def Seeds (infoHash : Text → Text → Hash) (s : SeedRegistry Hash) (blob : Text) : Prop :=
  ∃ id name, (id, infoHash blob name) ∈ s.torrents

/-- No promotion of the blob is on its way, and no call has torrents of it to delete. -/
def Quiet (s : SeedRegistry Hash) (blob : Text) : Prop :=
  (∀ p ∈ s.tasks, p.blob = blob → p.point = .ended) ∧
    ∀ u ∈ s.unseeds, u.blob = blob → u.deletes = []

/-- The session no longer has the torrent, or somebody other than promotion `k` sees to
it: the table lists it for the blob, another promotion of the blob has yet to record or to
delete it, or a call has it to delete. -/
def SeenTo (s : SeedRegistry Hash) (blob : Text) (id k : ℕ) : Prop :=
  id ∉ s.torrents.map Prod.fst ∨ id ∈ s.listed blob ∨
    (∃ p ∈ s.tasks.eraseIdx k, p.blob = blob ∧ p.point.torrent = some id) ∨
    ∃ u ∈ s.unseeds, u.blob = blob ∧ id ∈ u.deletes

/-- No blob is listed with this torrent, so that nothing in the table would ever delete it. -/
def Unlisted (s : SeedRegistry Hash) (id : ℕ) : Prop :=
  ∀ x ∈ s.seeds.entries, id ∉ x.2.torrentIds

/-- The condition on a promotion's step: where the session does not start, an unseed has
taken the promotion out of the table already; a torrent that is put into the table is
still in the session; a torrent that is deleted again is not in the table. -/
def SafeAdvance (infoHash : Text → Text → Hash) (s : SeedRegistry Hash) (k : ℕ) (ok : Bool)
    (p : Promotion) : Prop :=
  match p.point with
  | .session => (s.live || ok) = true ∨ p.registered = true ∧ k ∉ s.pending p.blob
  | .record id =>
    p.wanted = true → (s.seeds.lookup p.blob).isSome = true →
      (id, infoHash p.blob (seedFileName p.name)) ∈ s.torrents
  | .rollback id => s.Unlisted id
  | _ => True

/-- The condition on a step, for what else there is: a promotion is put into the table
before it ends; one that is dropped has no torrent that nobody else sees to; a call that
cannot delete has nothing to delete, and deletes nothing that is in the table. -/
def Safe (infoHash : Text → Text → Hash) (s : SeedRegistry Hash) : SeedEvent → Prop
  | .register k => ∀ p ∈ s.tasks[k]?, p.registered = false → p.point ≠ .ended
  | .advance k ok _ => ∀ p ∈ s.tasks[k]?, s.SafeAdvance infoHash k ok p
  | .dropTask k =>
    ∀ p ∈ s.tasks[k]?, p.aborted = true → ∀ id ∈ p.point.torrent, s.SeenTo p.blob id k
  | .unseedDetached blob runtime => runtime = true ∨ s.listed blob = []
  | .delete i _ =>
    ∀ u ∈ s.unseeds[i]?, u.cancels = [] → ∀ id ∈ u.deletes.head?, s.Unlisted id
  | _ => True

/-! ## The table under the steps -/

section Frame

variable {s : SeedRegistry Hash} {k : ℕ} {p : Promotion} {blob : Text}

@[simp] theorem listed_goto (point : PromotionPoint) (b : Text) :
    (s.goto k p point).listed b = s.listed b := rfl

@[simp] theorem pending_goto (point : PromotionPoint) (b : Text) :
    (s.goto k p point).pending b = s.pending b := rfl

@[simp] theorem tasks_dropGuard : (s.dropGuard k blob).tasks = s.tasks := by
  unfold dropGuard
  dsimp only
  split
  · split <;> rfl
  · rfl

@[simp] theorem unseeds_dropGuard : (s.dropGuard k blob).unseeds = s.unseeds := by
  unfold dropGuard
  dsimp only
  split
  · split <;> rfl
  · rfl

@[simp] theorem torrents_dropGuard : (s.dropGuard k blob).torrents = s.torrents := by
  unfold dropGuard
  dsimp only
  split
  · split <;> rfl
  · rfl

@[simp] theorem live_dropGuard : (s.dropGuard k blob).live = s.live := by
  unfold dropGuard
  dsimp only
  split
  · split <;> rfl
  · rfl

theorem listed_of_lookup {entry : SeedEntry} (h : s.seeds.lookup blob = some entry) :
    s.listed blob = entry.torrentIds := by
  unfold listed
  rw [h]

theorem pending_of_lookup {entry : SeedEntry} (h : s.seeds.lookup blob = some entry) :
    s.pending blob = entry.promotions := by
  unfold pending
  rw [h]

theorem listed_of_none (h : s.seeds.lookup blob = none) : s.listed blob = [] := by
  unfold listed
  rw [h]

theorem pending_of_none (h : s.seeds.lookup blob = none) : s.pending blob = [] := by
  unfold pending
  rw [h]

/-- Putting an entry into the table. -/
theorem pending_insert (entry : SeedEntry) (b : Text) :
    ({ s with seeds := s.seeds.insert blob entry }).pending b =
      if b = blob then entry.promotions else s.pending b := by
  by_cases hb : b = blob
  · subst hb
    rw [if_pos rfl]
    exact pending_of_lookup (s := { s with seeds := s.seeds.insert b entry })
      (AList.lookup_insert s.seeds)
  · rw [if_neg hb]
    unfold pending
    simp [hb]

theorem listed_insert (entry : SeedEntry) (b : Text) :
    ({ s with seeds := s.seeds.insert blob entry }).listed b =
      if b = blob then entry.torrentIds else s.listed b := by
  by_cases hb : b = blob
  · subst hb
    rw [if_pos rfl]
    exact listed_of_lookup (s := { s with seeds := s.seeds.insert b entry })
      (AList.lookup_insert s.seeds)
  · rw [if_neg hb]
    unfold listed
    simp [hb]

/-- Taking an entry out of the table. -/
theorem pending_erase (b : Text) : ({ s with seeds := s.seeds.erase blob }).pending b =
    if b = blob then [] else s.pending b := by
  by_cases hb : b = blob
  · subst hb
    rw [if_pos rfl]
    exact pending_of_none (AList.lookup_erase b s.seeds)
  · rw [if_neg hb]
    unfold pending
    simp [hb]

theorem listed_erase (b : Text) : ({ s with seeds := s.seeds.erase blob }).listed b =
    if b = blob then [] else s.listed b := by
  by_cases hb : b = blob
  · subst hb
    rw [if_pos rfl]
    exact listed_of_none (AList.lookup_erase b s.seeds)
  · rw [if_neg hb]
    unfold listed
    simp [hb]

/-- **The guard takes out its promotion** and no other. -/
theorem pending_dropGuard (b : Text) : (s.dropGuard k blob).pending b =
    if b = blob then (s.pending b).filter (· ≠ k) else s.pending b := by
  unfold dropGuard
  dsimp only
  split
  · rename_i entry hentry
    split
    · rename_i hempty
      rw [pending_erase]
      by_cases hb : b = blob
      · subst hb
        rw [if_pos rfl, if_pos rfl, pending_of_lookup hentry, hempty.1]
      · rw [if_neg hb, if_neg hb]
    · rw [pending_insert]
      by_cases hb : b = blob
      · subst hb
        rw [if_pos rfl, if_pos rfl, pending_of_lookup hentry]
      · rw [if_neg hb, if_neg hb]
  · rename_i hnone
    by_cases hb : b = blob
    · subst hb
      rw [if_pos rfl, pending_of_none hnone]
      rfl
    · rw [if_neg hb]

/-- The guard keeps what torrents are listed. -/
@[simp] theorem listed_dropGuard (b : Text) :
    (s.dropGuard k blob).listed b = s.listed b := by
  unfold dropGuard
  dsimp only
  split
  · rename_i entry hentry
    split
    · rename_i hempty
      rw [listed_erase]
      by_cases hb : b = blob
      · subst hb
        rw [if_pos rfl, listed_of_lookup hentry, hempty.2]
      · rw [if_neg hb]
    · rw [listed_insert]
      by_cases hb : b = blob
      · subst hb
        rw [if_pos rfl, listed_of_lookup hentry]
      · rw [if_neg hb]
  · rfl

theorem Unlisted.not_mem {id : ℕ} (h : s.Unlisted id) (b : Text) : id ∉ s.listed b := by
  unfold listed
  split
  · rename_i entry hentry
    exact h ⟨b, entry⟩ (mem_entries_iff.mpr hentry)
  · exact List.not_mem_nil

end Frame

end SeedRegistry

end Atlas
