import Atlas.Sharing
import Atlas.Transition
import Mathlib.Data.Finset.Basic

/-!
# Sharing worldwide

While sharing runs, a loop lists the blobs that may be shared, seeds each of them into
the Iroh store, tells the tracker which ones this node has, and withdraws those of its
previous pass that are gone. Meanwhile the user imports manifests, turns sharing of a
blob on and off, evicts blobs, and stops and starts the whole thing.

There are three views of what is shared: the tables, the tracker's records and the
store. The loop compares the tables with its own last announcement only, and it never
takes anything out of the store: that is left to the operation that ends the sharing of
a blob, and such an operation does it only while sharing runs.

`reconciled_of_pass` says what this amounts to. As long as no operation leaves a blob in
the store that may no longer be shared, and no lost request leaves a record the loop
does not know of, every completed pass leaves the three views equal.
-/

namespace Atlas

open Text Transition

variable {D : Digests}

/-! ## What keeps a blob shared -/

namespace ShareDb

variable {db db' : ShareDb} {blake3 : Text}

/-- The decision is made from the manifests of a blob and the choice about it. -/
theorem isBlobShareable_congr (hmanifests : db'.manifestsOf blake3 = db.manifestsOf blake3)
    (hchoice : db'.overrides.lookup blake3 = db.overrides.lookup blake3)
    (hgated : db'.shareGated = db.shareGated) :
    db'.isBlobShareable blake3 = db.isBlobShareable blake3 := by
  unfold isBlobShareable blobIsGatedOrRestrictive blobProvenance shareOverride
    isGatedShareConfirmed
  rw [hmanifests, hchoice, hgated]

/-- A choice about one blob says nothing about another. -/
theorem isBlobShareable_of_insert {o : ShareOverride} {b : Text} (hne : blake3 ≠ b) :
    ({ db with overrides := db.overrides.insert b o } : ShareDb).isBlobShareable blake3 =
      db.isBlobShareable blake3 :=
  isBlobShareable_congr rfl (AList.lookup_insert_ne hne) rfl

/-- Revoking the confirmations leaves the choices that were not confirmed. -/
theorem lookup_clear (h : ∀ o, db.overrides.lookup blake3 = some o →
    o.confirmedGated = false) :
    db.clearAllGatedConfirmations.overrides.lookup blake3 = db.overrides.lookup blake3 := by
  show (db.overrides.filterMapVal _).lookup blake3 = _
  rw [AList.lookup_filterMapVal]
  cases hlookup : db.overrides.lookup blake3 with
  | none => rfl
  | some o =>
    rw [Option.bind_some, if_neg (Bool.eq_false_iff.mp (h o hlookup))]

/-- It says nothing about what was not confirmed. -/
theorem isBlobShareable_clear (h : ∀ o, db.overrides.lookup blake3 = some o →
    o.confirmedGated = false) :
    db.clearAllGatedConfirmations.isBlobShareable blake3 = db.isBlobShareable blake3 :=
  isBlobShareable_congr rfl (lookup_clear h) rfl

/-- Forgetting a blob leaves the other rows as they are. -/
theorem cachedSha256_deleteCacheBlob {b : Text} (hne : blake3 ≠ b) :
    (db.deleteCacheBlob b).cachedSha256 blake3 = db.cachedSha256 blake3 := by
  unfold cachedSha256
  show ((((db.cacheBlobs.filter fun row => row.blake3 ≠ b).find? _).map _).getD []) = _
  rw [List.find?_filter]
  congr 3
  funext row
  by_cases hrow : row.blake3 = blake3
  · simp [hrow, hne]
  · simp [hrow]

/-- Forgetting one blob says nothing about another. -/
theorem isBlobShareable_delete {b : Text} (hne : blake3 ≠ b) :
    (db.deleteCacheBlob b).isBlobShareable blake3 = db.isBlobShareable blake3 := by
  refine isBlobShareable_congr ?_ (AList.lookup_erase_ne hne) rfl
  unfold manifestsOf
  rw [cachedSha256_deleteCacheBlob hne]
  rfl

/-- What the user chose to share is shared, once it is confirmed if it has to be. -/
theorem isBlobShareable_of_shared (hchoice : db.shareOverride blake3 = some true) :
    db.isBlobShareable blake3 = true ↔
      (db.blobIsGatedOrRestrictive blake3 = true → db.isGatedShareConfirmed blake3 = true) := by
  unfold isBlobShareable
  rw [hchoice]
  by_cases hgated : db.blobIsGatedOrRestrictive blake3 = true
  · rw [if_pos hgated, if_neg (fun hstop => nomatch hstop)]
    exact ⟨fun h _ => h, fun h => h hgated⟩
  · rw [if_neg hgated]
    exact iff_of_true rfl fun h => absurd h hgated

/-- The choice and the confirmation a row holds. -/
theorem choice_of_insert (o : ShareOverride) :
    ({ db with overrides := db.overrides.insert blake3 o } : ShareDb).shareOverride blake3 =
        some o.shared ∧
      ({ db with overrides := db.overrides.insert blake3 o } :
        ShareDb).isGatedShareConfirmed blake3 = o.confirmedGated := by
  unfold shareOverride isGatedShareConfirmed
  simp only [AList.lookup_insert, Option.map_some, Option.getD_some, and_self]

/-- Opting in takes nothing away. -/
theorem isBlobShareable_optIn (h : db.isBlobShareable blake3 = true) (b sha256 : Text) :
    (db.setShareOverride b sha256 true).isBlobShareable blake3 = true := by
  by_cases hb : blake3 = b
  · subst hb
    obtain ⟨hchoice, hconfirmed⟩ := @choice_of_insert db blake3
      ⟨sha256, true, db.isGatedShareConfirmed blake3⟩
    refine (isBlobShareable_of_shared hchoice).mpr fun hgated => hconfirmed.trans ?_
    -- a recognized blob was shared because it is confirmed
    unfold isBlobShareable at h
    rw [if_pos (show db.blobIsGatedOrRestrictive blake3 = true from hgated)] at h
    split at h
    · cases h
    · exact h
  · exact (isBlobShareable_of_insert hb).trans h

/-- Neither does a confirmation. -/
theorem isBlobShareable_confirm (h : db.isBlobShareable blake3 = true) (b sha256 : Text) :
    (db.confirmGatedShare b sha256).isBlobShareable blake3 = true := by
  by_cases hb : blake3 = b
  · subst hb
    obtain ⟨hchoice, hconfirmed⟩ := @choice_of_insert db blake3
      ⟨sha256, true, true⟩
    exact (isBlobShareable_of_shared hchoice).mpr fun _ => hconfirmed
  · exact (isBlobShareable_of_insert hb).trans h

/-- **Sharing gated models automatically changes nothing**: what is recognized as gated
still needs a confirmation, and for the rest it makes no difference. -/
theorem isBlobShareable_setShareGated (on : Bool) :
    (db.setShareGated on).isBlobShareable blake3 = db.isBlobShareable blake3 := by
  unfold isBlobShareable
  by_cases hgated : db.blobIsGatedOrRestrictive blake3 = true
  · rw [if_pos hgated]
    exact if_pos hgated
  · rw [if_neg hgated]
    refine (if_neg hgated).trans ?_
    rw [show (db.setShareGated on).shareOverride blake3 = db.shareOverride blake3 from rfl]
    cases db.shareOverride blake3 with
    | some forced => rfl
    | none =>
      have hplain : ∀ m ∈ db.manifestsOf blake3, ∀ g, m.autoShareable g = m.hasPublicProvenance := by
        intro m hm g
        have hm : m.needsConfirmation = false := by
          by_contra hneeds
          exact hgated (List.any_eq_true.mpr ⟨m, hm, Bool.eq_true_of_not_eq_false hneeds⟩)
        unfold DocumentBody.needsConfirmation at hm
        unfold DocumentBody.autoShareable
        rw [Bool.or_eq_false_iff] at hm
        rw [hm.1, hm.2]
        cases m.hasPublicProvenance <;> simp
      have hprovenance : ∀ g, (if (db.manifestsOf blake3).isEmpty then (false, false, false)
          else (true, (db.manifestsOf blake3).any fun m => m.isGated,
            (db.manifestsOf blake3).any fun m => m.autoShareable g)).2.2 =
          (db.manifestsOf blake3).any fun m => m.hasPublicProvenance := by
        intro g
        rw [apply_ite (fun t : Bool × Bool × Bool => t.2.2)]
        split
        · rename_i hempty
          rw [List.isEmpty_iff.mp hempty]
          rfl
        · rw [Bool.eq_iff_iff, List.any_eq_true, List.any_eq_true]
          exact exists_congr fun m => and_congr_right fun hm => by rw [hplain m hm g]
      exact (hprovenance on).trans (hprovenance db.shareGated).symm

/-- The cache has a row for a blob, under its BLAKE3 text. -/
def HasRow (db : ShareDb) (blake3 : Text) : Prop := ∃ row ∈ db.cacheBlobs, row.blake3 = blake3

instance : Decidable (db.HasRow blake3) :=
  inferInstanceAs (Decidable (∃ row ∈ db.cacheBlobs, _))

/-- A commit takes no row away. -/
theorem HasRow.upsert (h : db.HasRow blake3) (m : BlobMeta) :
    (db.upsertCacheBlob m).HasRow blake3 := by
  obtain ⟨row, hrow, hname⟩ := h
  show ∃ row ∈ Db.upsertCacheBlob m db.cacheBlobs, _
  unfold Db.upsertCacheBlob
  split
  · refine ⟨_, List.mem_map_of_mem hrow, ?_⟩
    rw [← hname]
    split <;> rfl
  · exact ⟨row, List.mem_append_left _ hrow, hname⟩

/-- Evicting some blobs keeps the others, as they were. -/
theorem deleted_of_notMem {blake3s : List Text} (hnot : blake3 ∉ blake3s)
    (hrow : db.HasRow blake3) :
    (blake3s.foldl (fun db b => db.deleteCacheBlob b) db).HasRow blake3 ∧
      (blake3s.foldl (fun db b => db.deleteCacheBlob b) db).isBlobShareable blake3 =
        db.isBlobShareable blake3 := by
  induction blake3s generalizing db with
  | nil => exact ⟨hrow, rfl⟩
  | cons b blake3s ih =>
    obtain ⟨hne, hnot⟩ := not_or.mp (List.mem_cons.not.mp hnot)
    obtain ⟨row, hmem, hname⟩ := hrow
    have hkept : (db.deleteCacheBlob b).HasRow blake3 :=
      ⟨row, List.mem_filter.mpr ⟨hmem, decide_eq_true (hname ▸ hne)⟩, hname⟩
    obtain ⟨hrow, hshared⟩ := ih hnot hkept
    exact ⟨hrow, hshared.trans (isBlobShareable_delete hne)⟩

end ShareDb

/-! ## State -/

/-- Where the announce loop is, and what it has still to do in this pass. -/
inductive LoopPhase where
  /-- About to purge what a previous session left on the tracker. -/
  | purging
  /-- Between two passes. -/
  | sleeping
  /-- Seeding the items that were listed; those seeded so far. -/
  | seeding (left : List CacheBlob) (current : Finset Text)
  /-- The stale records are withdrawn, and the current ones are next. -/
  | announcing (current : Finset Text)
  deriving DecidableEq

/-- A running `WorldwideShare`: what it announced last, and where its loop is. -/
structure ShareSession where
  /-- What the previous pass announced. -/
  announced : Finset Text
  phase : LoopPhase
  deriving DecidableEq

/-- What the sharing of a node consists of. Blobs go by their BLAKE3, which the cache, the
store and the tracker all spell in lower case. -/
structure ShareState where
  db : ShareDb
  /-- The blob files that are there. -/
  files : Finset Text
  /-- The records of this node on the tracker. -/
  tracker : Finset Text
  /-- The blobs the Iroh share store holds. They stay when sharing stops. -/
  served : Finset Text
  /-- The engine's signal of what is seeded over Iroh. -/
  seeded : Finset Text
  /-- The engine knows its node id. -/
  nodeIdKnown : Bool
  session : Option ShareSession

/-- What the loop does next, with the outcome of the request or the import it makes. -/
inductive LoopStep where
  | purge (delivered : Bool)
  | wake
  | seed (imported : Bool)
  | withdrawStale (delivered : Bool)
  | announce (delivered : Bool)

/-- What happens to a node: models come and go, the user decides, and the announce loop
takes steps. -/
inductive ShareEvent where
  | importManifest (m : Document)
  /-- A download or an import puts a blob into the cache. -/
  | commit (content : Bytes)
  | turnOn (blake3 sha256 : Text)
  | confirmGated (blake3 sha256 : Text)
  | setShareGated (on : Bool)
  | turnOff (blake3 sha256 : Text) (delivered : Bool)
  | revokeGated (delivered : Bool)
  | evict (blake3s : List Text) (delivered : Bool)
  /-- The UI seeds and announces everything at once, after an import or an opt-in. -/
  | announceShared (imported : Text → Bool) (delivered : Bool)
  /-- The tracker drops records that are too old. -/
  | expire (blake3s : Finset Text)
  | start
  | stop (delivered : Bool)
  /-- The process ends, however it ends. -/
  | exit
  | loop (step : LoopStep)

namespace ShareState

/-- Nothing is stored, and nothing is shared, as after a fresh installation. -/
def empty : ShareState := ⟨.empty, ∅, ∅, ∅, ∅, false, none⟩

/-! ## Operations -/

/-- The blobs to share: those in the cache that may be shared and whose file is there. -/
def buildShareItems (s : ShareState) : List CacheBlob :=
  s.db.cacheBlobs.filter fun b => s.db.isBlobShareable b.blake3 && b.blake3 ∈ s.files

/-- The request to the tracker, when it gets there. No names means all of them. -/
def withdrawFromTracker (blake3s : List Text) (delivered : Bool) (s : ShareState) :
    ShareState :=
  if s.nodeIdKnown && delivered then
    { s with tracker := if blake3s.isEmpty then ∅ else s.tracker \ blake3s.toFinset }
  else s

/-- End the sharing of some blobs the tables no longer share: the store drops them if
sharing runs, and the tracker is told. -/
def severed (blake3s : List Text) (delivered : Bool) (s : ShareState) : ShareState :=
  if blake3s.isEmpty then s
  else
    { s with
      served := if s.session.isSome then s.served \ blake3s.toFinset else s.served
      }.withdrawFromTracker blake3s delivered

/-- The blobs whose sharing `clear_all_gated_confirmations` ends, those that were confirmed. -/
def confirmedBlobs (db : ShareDb) : List Text :=
  (db.overrides.entries.filter fun e => e.2.confirmedGated).map Sigma.fst

/-- Forget some blobs, and remove their files from the store. -/
def evictBlobs (blake3s : List Text) (s : ShareState) : ShareState :=
  { s with
    db := blake3s.foldl (fun db b => db.deleteCacheBlob b) s.db
    files := s.files \ blake3s.toFinset }

/-- The row of a blob that is committed, with its true digests and size. -/
def committedMeta (D : Digests) (content : Bytes) : BlobMeta :=
  ⟨hexEncode (D.blake3 content), hexEncode (D.sha256 content), content.length⟩

/-- Seed every item and announce those that could be seeded, in one step of the loop; the
tracker only hears of it if the request is delivered. -/
def announceItems (imported : Text → Bool) (delivered : Bool) (s : ShareState) : ShareState :=
  let ann := ((s.buildShareItems.map CacheBlob.blake3).filter imported).toFinset
  { s with
    served := s.served ∪ ann
    tracker := if delivered then s.tracker ∪ ann else s.tracker }

/-! ## The announce loop -/

/-- One step of the loop, which is in the given phase; what the phase waits for decides
which steps can happen in it. -/
def loopStep (s : ShareState) (announced : Finset Text) : LoopPhase → LoopStep → ShareState
  | .purging, .purge delivered =>
    { s with
      tracker := if delivered then ∅ else s.tracker
      session := some ⟨announced, .sleeping⟩ }
  | .sleeping, .wake =>
    { s with session := some ⟨announced, .seeding s.buildShareItems ∅⟩ }
  | .seeding (it :: left) current, .seed imported =>
    if it.blake3 ∈ s.seeded then
      -- already seeded, so the store is not asked again
      { s with session := some ⟨announced, .seeding left (insert it.blake3 current)⟩ }
    else if imported && it.blake3 ∈ s.files then
      { s with
        served := insert it.blake3 s.served
        session := some ⟨announced, .seeding left (insert it.blake3 current)⟩ }
    else { s with session := some ⟨announced, .seeding left current⟩ }
  | .seeding [] current, .withdrawStale delivered =>
    { s with
      seeded := current
      tracker := if delivered then s.tracker \ (announced \ current) else s.tracker
      session := some ⟨announced, .announcing current⟩ }
  | .announcing current, .announce delivered =>
    { s with
      tracker := if delivered then s.tracker ∪ current else s.tracker
      session := some ⟨current, .sleeping⟩ }
  | _, _ => s

/-- What an event does, to the tables, the files, the session and what the tracker is told. -/
def step (D : Digests) (s : ShareState) : ShareEvent → ShareState
  | .importManifest m => { s with db := s.db.insertManifest m }
  | .commit content =>
    { s with
      db := s.db.upsertCacheBlob (committedMeta D content)
      files := insert (committedMeta D content).blake3 s.files }
  | .turnOn blake3 sha256 => { s with db := s.db.setShareOverride blake3 sha256 true }
  | .confirmGated blake3 sha256 => { s with db := s.db.confirmGatedShare blake3 sha256 }
  | .setShareGated on => { s with db := s.db.setShareGated on }
  | .turnOff blake3 sha256 delivered =>
    { s with db := s.db.setShareOverride blake3 sha256 false }.severed [blake3] delivered
  | .revokeGated delivered =>
    { s with db := s.db.clearAllGatedConfirmations }.severed (confirmedBlobs s.db) delivered
  | .evict blake3s delivered => (s.evictBlobs blake3s).severed blake3s delivered
  | .announceShared imported delivered =>
    if s.session.isSome then s.announceItems imported delivered else s
  | .expire blake3s => { s with tracker := s.tracker \ blake3s }
  | .start =>
    if s.session.isSome then s
    else { s with session := some ⟨∅, .purging⟩, seeded := ∅, nodeIdKnown := true }
  | .stop delivered =>
    { s with session := none, seeded := if s.session.isSome then ∅ else s.seeded
      }.withdrawFromTracker [] delivered
  | .exit => { s with session := none, seeded := ∅, nodeIdKnown := false }
  | .loop next =>
    match s.session with
    | none => s
    | some ss => s.loopStep ss.announced ss.phase next

/-- The state after some events, from a fresh installation. -/
def run (D : Digests) (events : List ShareEvent) : ShareState := events.foldl (step D) empty

/-- A pass over some items during which nothing else happens and every request gets to
the tracker. -/
def completedPass (items : List CacheBlob) (imported : Text → Bool) : List ShareEvent :=
  .loop .wake :: (items.map fun it => .loop (.seed (imported it.blake3))) ++
    [.loop (.withdrawStale true), .loop (.announce true)]

/-! ## What should be shared -/

/-- A blob may be shared: it is in the cache, the tables share it, and its file is there. -/
def Offered (s : ShareState) (blake3 : Text) : Prop :=
  s.db.HasRow blake3 ∧ s.db.isBlobShareable blake3 = true ∧ blake3 ∈ s.files

instance (s : ShareState) (blake3 : Text) : Decidable (s.Offered blake3) :=
  inferInstanceAs (Decidable (_ ∧ _ ∧ _))

/-- **The three views agree**: the tracker has a record for exactly the blobs that may be
shared and are seeded, and the store holds no other blob. -/
structure Reconciled (s : ShareState) : Prop where
  tracker : ∀ b, b ∈ s.tracker ↔ s.Offered b ∧ b ∈ s.served
  served : ∀ b ∈ s.served, s.Offered b

/-- The items are the blobs that may be shared. -/
theorem mem_buildShareItems {s : ShareState} {b : Text} :
    b ∈ s.buildShareItems.map CacheBlob.blake3 ↔ s.Offered b := by
  unfold buildShareItems Offered
  rw [List.mem_map]
  constructor
  · rintro ⟨row, hrow, rfl⟩
    obtain ⟨hmem, hshared⟩ := List.mem_filter.mp hrow
    simp only [Bool.and_eq_true, decide_eq_true_eq] at hshared
    exact ⟨⟨row, hmem, rfl⟩, hshared⟩
  · rintro ⟨⟨row, hmem, rfl⟩, hshared⟩
    refine ⟨row, List.mem_filter.mpr ⟨hmem, ?_⟩, rfl⟩
    simp only [Bool.and_eq_true, decide_eq_true_eq]
    exact hshared

/-! ## What the operations do -/

section Severed

variable (blake3s : List Text) (delivered : Bool) (s : ShareState)

/-- A withdrawal touches nothing but the records. -/
theorem withdrawFromTracker_eq :
    s.withdrawFromTracker blake3s delivered =
      { s with tracker := (s.withdrawFromTracker blake3s delivered).tracker } := by
  unfold withdrawFromTracker
  split <;> rfl

theorem mem_withdrawFromTracker {b : Text} :
    b ∈ (s.withdrawFromTracker blake3s delivered).tracker ↔
      b ∈ s.tracker ∧ ¬ (s.nodeIdKnown = true ∧ delivered = true ∧
        (blake3s = [] ∨ b ∈ blake3s)) := by
  unfold withdrawFromTracker
  cases s.nodeIdKnown <;> cases delivered <;> cases blake3s <;> simp

/-- Ending the sharing of blobs touches the store and the records only. -/
theorem severed_eq :
    s.severed blake3s delivered =
      { s with
        served := (s.severed blake3s delivered).served
        tracker := (s.severed blake3s delivered).tracker } := by
  unfold severed
  split
  · rfl
  · rw [withdrawFromTracker_eq]

/-- The store drops the blobs while sharing runs, and only then. -/
theorem mem_severed_served {b : Text} :
    b ∈ (s.severed blake3s delivered).served ↔
      b ∈ s.served ∧ ¬ (s.session.isSome = true ∧ b ∈ blake3s) := by
  unfold severed
  split
  · rename_i hempty
    rw [List.isEmpty_iff.mp hempty]
    simp
  · rw [withdrawFromTracker_eq]
    show b ∈ (if s.session.isSome = true then _ else _) ↔ _
    split <;> simp [*]

theorem mem_severed_tracker {b : Text} :
    b ∈ (s.severed blake3s delivered).tracker ↔
      b ∈ s.tracker ∧ ¬ (s.nodeIdKnown = true ∧ delivered = true ∧ b ∈ blake3s) := by
  unfold severed
  split
  · rename_i hempty
    rw [List.isEmpty_iff.mp hempty]
    simp
  · rename_i hnonempty
    rw [mem_withdrawFromTracker]
    have hne : blake3s ≠ [] := fun h => hnonempty (List.isEmpty_iff.mpr h)
    simp only [hne, false_or]

end Severed

/-! ## Harm -/

end ShareState

/-- **The loop knows of a record**: it will withdraw it, unless it announces it anew. At
its start it withdraws everything. -/
def ShareSession.Knows (ss : ShareSession) (blake3 : Text) : Prop :=
  match ss.phase with
  | .purging => True
  | .announcing current => blake3 ∈ current
  | _ => blake3 ∈ ss.announced

instance (ss : ShareSession) (blake3 : Text) : Decidable (ss.Knows blake3) := by
  unfold ShareSession.Knows
  cases ss.phase <;> infer_instance

namespace ShareState

/-- A change of the tables leaves what the store holds shareable, so that a running share
loop needs no purge because of the change. -/
def KeepsShared (s : ShareState) (db : ShareDb) : Prop :=
  ∀ b ∈ s.served, db.isBlobShareable b = true

/-- Blobs whose sharing ends leave the store, which they do only while sharing runs; and
the tracker is told, or the loop will tell it. -/
def Severs (s : ShareState) (blake3s : List Text) (delivered : Bool) : Prop :=
  (s.session.isSome = true ∨ ∀ b ∈ blake3s, b ∉ s.served) ∧
    (delivered = true ∨ ∀ ss ∈ s.session, ∀ b ∈ blake3s, b ∈ s.tracker → ss.Knows b)

/-- A step of the loop that seeds only what may still be shared, is right about what it
believes to be seeded already, can seed again what the store holds, and loses no record
when a request fails. -/
def LoopHarmless (s : ShareState) (announced : Finset Text) : LoopPhase → LoopStep → Prop
  | .purging, .purge delivered => delivered = true ∨ ∀ b ∈ s.tracker, b ∈ s.served
  | .seeding (it :: _) _, .seed imported =>
    if it.blake3 ∈ s.seeded then it.blake3 ∈ s.served
    else if imported && it.blake3 ∈ s.files then s.Offered it.blake3
    else it.blake3 ∉ s.served
  | .seeding [] current, .withdrawStale delivered =>
    delivered = true ∨ ∀ b ∈ s.tracker, b ∈ announced → b ∈ current ∨ b ∈ s.served
  | _, _ => True

/-- **An event does no harm**: it leaves nothing in the store that may not be shared, and
no record on the tracker that nobody will withdraw. -/
def Harmless (D : Digests) (s : ShareState) : ShareEvent → Prop
  | .importManifest m => s.KeepsShared (s.db.insertManifest m)
  | .commit content => s.KeepsShared (s.db.upsertCacheBlob (committedMeta D content))
  | .turnOff blake3 _ delivered => s.Severs [blake3] delivered
  | .revokeGated delivered => s.Severs (confirmedBlobs s.db) delivered
  | .evict blake3s delivered => s.Severs blake3s delivered
  | .loop next => ∀ ss ∈ s.session, s.LoopHarmless ss.announced ss.phase next
  | _ => True

section Decidable

variable (s : ShareState)

instance (db : ShareDb) : Decidable (s.KeepsShared db) :=
  inferInstanceAs (Decidable (∀ b ∈ s.served, _))

instance (blake3s : List Text) (delivered : Bool) : Decidable (s.Severs blake3s delivered) :=
  inferInstanceAs (Decidable ((_ ∨ _) ∧ (_ ∨ _)))

instance (announced : Finset Text) (phase : LoopPhase) (next : LoopStep) :
    Decidable (s.LoopHarmless announced phase next) := by
  unfold LoopHarmless
  split <;> infer_instance

instance (D : Digests) (e : ShareEvent) : Decidable (s.Harmless D e) := by
  unfold Harmless
  split <;> infer_instance

end Decidable

/-- **Nothing is out of place**: the store holds only what may be shared, and the loop
knows of every record of a blob that the store does not hold. -/
structure Sound (s : ShareState) : Prop where
  served : ∀ b ∈ s.served, s.Offered b
  tracker : ∀ ss ∈ s.session, ∀ b ∈ s.tracker, b ∈ s.served ∨ ss.Knows b
  nodeId : s.session.isSome = true → s.nodeIdKnown = true

namespace Sound

variable {s : ShareState}

theorem empty : Sound .empty where
  served b hb := absurd hb (Finset.notMem_empty b)
  tracker _ hss := nomatch hss
  nodeId h := nomatch h

/-- A change of the tables and the files, when what the store holds may still be shared. -/
theorem ofTables (h : s.Sound) {db : ShareDb} {files : Finset Text}
    (hkept : ∀ b ∈ s.served, ({ s with db := db, files := files } : ShareState).Offered b) :
    ({ s with db := db, files := files } : ShareState).Sound :=
  ⟨hkept, h.tracker, h.nodeId⟩

/-- **The sharing of some blobs ends.** -/
theorem severed (h : s.Sound) {blake3s : List Text} {delivered : Bool}
    (hsevers : s.Severs blake3s delivered) {db : ShareDb} {files : Finset Text}
    (hkept : ∀ b ∈ s.served, b ∉ blake3s →
      ({ s with db := db, files := files } : ShareState).Offered b) :
    (({ s with db := db, files := files } : ShareState).severed blake3s delivered).Sound := by
  have heq := severed_eq blake3s delivered { s with db := db, files := files }
  refine ⟨fun b hb => ?_, fun ss hss b hb => ?_, fun hsome => ?_⟩
  · obtain ⟨hserved, hnot⟩ := (mem_severed_served ..).mp hb
    rw [heq]
    refine hkept b hserved fun hmem => ?_
    cases hsevers.1 with
    | inl hrunning => exact hnot ⟨hrunning, hmem⟩
    | inr hunserved => exact hunserved b hmem hserved
  · obtain ⟨htracker, hnot⟩ := (mem_severed_tracker ..).mp hb
    rw [heq] at hss
    rw [mem_severed_served]
    by_cases hmem : b ∈ blake3s
    · right
      obtain hdelivered | hknown := hsevers.2
      · exact absurd ⟨h.nodeId (Option.isSome_of_mem hss), hdelivered, hmem⟩ hnot
      · exact hknown ss hss b hmem htracker
    · exact (h.tracker ss hss b htracker).imp_left fun hserved =>
        ⟨hserved, fun hboth => hmem hboth.2⟩
  · rw [heq] at hsome ⊢
    exact h.nodeId hsome

/-- One step of the loop. -/
theorem loopStep (h : s.Sound) {announced : Finset Text} {phase : LoopPhase} {next : LoopStep}
    (hss : s.session = some ⟨announced, phase⟩)
    (hharmless : s.LoopHarmless announced phase next) :
    (s.loopStep announced phase next).Sound := by
  have hknown : s.nodeIdKnown = true := h.nodeId (by rw [hss]; rfl)
  unfold ShareState.loopStep
  split
  · -- the purge
    rename_i delivered
    refine ⟨h.served, fun ss' hss' b hb => Or.inl ?_, fun _ => hknown⟩
    cases delivered with
    | true => exact absurd hb (Finset.notMem_empty b)
    | false => exact (hharmless.resolve_left Bool.false_ne_true) b hb
  · refine ⟨h.served, fun ss' hss' b hb => ?_, fun _ => hknown⟩
    cases hss'
    exact h.tracker _ hss b hb
  · -- seeding an item
    rename_i it left current imported
    replace hharmless : if it.blake3 ∈ s.seeded then it.blake3 ∈ s.served
      else if imported && it.blake3 ∈ s.files then s.Offered it.blake3
      else it.blake3 ∉ s.served := hharmless
    split
    · refine ⟨h.served, fun ss' hss' b hb => ?_, fun _ => hknown⟩
      cases hss'
      exact h.tracker _ hss b hb
    · rename_i hunseeded
      rw [if_neg hunseeded] at hharmless
      split
      · rename_i himported
        rw [if_pos himported] at hharmless
        refine ⟨fun b hb => ?_, fun ss' hss' b hb => ?_, fun _ => hknown⟩
        · obtain rfl | hb := Finset.mem_insert.mp hb
          · exact hharmless
          · exact h.served b hb
        · cases hss'
          exact (h.tracker _ hss b hb).imp_left Finset.mem_insert_of_mem
      · refine ⟨h.served, fun ss' hss' b hb => ?_, fun _ => hknown⟩
        cases hss'
        exact h.tracker _ hss b hb
  · -- the stale records
    rename_i current delivered
    refine ⟨h.served, fun ss' hss' b hb => ?_, fun _ => hknown⟩
    cases hss'
    show b ∈ s.served ∨ b ∈ current
    cases delivered with
    | true =>
      obtain ⟨hmem, hstale⟩ := Finset.mem_sdiff.mp hb
      refine (h.tracker _ hss b hmem).imp_right fun hannounced => ?_
      by_contra hnot
      exact hstale (Finset.mem_sdiff.mpr ⟨hannounced, hnot⟩)
    | false =>
      obtain hserved | hannounced := h.tracker _ hss b hb
      · exact Or.inl hserved
      · exact ((hharmless.resolve_left Bool.false_ne_true) b hb hannounced).symm
  · -- the announcement
    rename_i current delivered
    refine ⟨h.served, fun ss' hss' b hb => ?_, fun _ => hknown⟩
    cases hss'
    show b ∈ s.served ∨ b ∈ current
    cases delivered with
    | true =>
      obtain hmem | hcurrent := Finset.mem_union.mp hb
      · exact h.tracker _ hss b hmem
      · exact Or.inr hcurrent
    | false => exact h.tracker _ hss b hb
  · exact h

/-- **An event that does no harm leaves everything in place.** -/
theorem step (h : s.Sound) {e : ShareEvent} (hharmless : s.Harmless D e) :
    (s.step D e).Sound := by
  -- an import or a commit may make a served blob unshareable, which `Harmless` excludes; switching
  -- on and confirming only widen; switching off, revoking and evicting take the blobs concerned out
  -- of the session in the same event
  cases e with
  | importManifest m =>
    exact @ofTables s h (s.db.insertManifest m) s.files fun b hb =>
      ⟨(h.served b hb).1, hharmless b hb, (h.served b hb).2.2⟩
  | commit content =>
    exact @ofTables s h (s.db.upsertCacheBlob _) (insert _ s.files) fun b hb =>
      ⟨(h.served b hb).1.upsert _, hharmless b hb,
        Finset.mem_insert_of_mem (h.served b hb).2.2⟩
  | turnOn blake3 sha256 =>
    exact @ofTables s h (s.db.setShareOverride blake3 sha256 true) s.files fun b hb =>
      ⟨(h.served b hb).1, ShareDb.isBlobShareable_optIn (h.served b hb).2.1 _ _,
        (h.served b hb).2.2⟩
  | confirmGated blake3 sha256 =>
    exact @ofTables s h (s.db.confirmGatedShare blake3 sha256) s.files fun b hb =>
      ⟨(h.served b hb).1, ShareDb.isBlobShareable_confirm (h.served b hb).2.1 _ _,
        (h.served b hb).2.2⟩
  | setShareGated on =>
    exact @ofTables s h (s.db.setShareGated on) s.files fun b hb =>
      ⟨(h.served b hb).1,
        (ShareDb.isBlobShareable_setShareGated on).trans (h.served b hb).2.1,
        (h.served b hb).2.2⟩
  | turnOff blake3 sha256 delivered =>
    refine @severed s h _ _ hharmless (s.db.setShareOverride blake3 sha256 false) s.files
      fun b hb hnot => ⟨(h.served b hb).1, ?_, (h.served b hb).2.2⟩
    exact (ShareDb.isBlobShareable_of_insert fun hb => hnot (List.mem_singleton.mpr hb)).trans
      (h.served b hb).2.1
  | revokeGated delivered =>
    refine @severed s h _ _ hharmless s.db.clearAllGatedConfirmations s.files
      fun b hb hnot => ⟨(h.served b hb).1, ?_, (h.served b hb).2.2⟩
    refine (ShareDb.isBlobShareable_clear fun o ho => ?_).trans (h.served b hb).2.1
    by_contra hconfirmed
    refine hnot (List.mem_map.mpr ⟨⟨b, o⟩, List.mem_filter.mpr ⟨AList.mem_lookup_iff.mp ho, ?_⟩,
      rfl⟩)
    exact Bool.eq_true_of_not_eq_false hconfirmed
  | evict blake3s delivered =>
    refine @severed s h _ _ hharmless _ _ fun b hb hnot => ?_
    obtain ⟨hrow, hshared, hfile⟩ := h.served b hb
    obtain ⟨hrow', hshared'⟩ := ShareDb.deleted_of_notMem hnot hrow
    exact ⟨hrow', hshared'.trans hshared,
      Finset.mem_sdiff.mpr ⟨hfile, fun hmem => hnot (List.mem_toFinset.mp hmem)⟩⟩
  -- the announcement reads the tables again, so what it adds is shareable when it is added; an
  -- undelivered one reaches no tracker
  | announceShared imported delivered =>
    show (if s.session.isSome = true then _ else s).Sound
    split
    · refine ⟨fun b hb => ?_, fun ss hss b hb => ?_, h.nodeId⟩
      · obtain hb | hb := Finset.mem_union.mp hb
        · exact h.served b hb
        · exact mem_buildShareItems.mp (List.mem_filter.mp (List.mem_toFinset.mp hb)).1
      · cases delivered with
        | true =>
          obtain hb | hb := Finset.mem_union.mp hb
          · exact (h.tracker ss hss b hb).imp_left (Finset.mem_union_left _)
          · exact Or.inl (Finset.mem_union_right _ hb)
        | false => exact (h.tracker ss hss b hb).imp_left (Finset.mem_union_left _)
    · exact h
  | expire blake3s =>
    exact ⟨h.served, fun ss hss b hb => h.tracker ss hss b (Finset.mem_sdiff.mp hb).1, h.nodeId⟩
  | start =>
    show (if s.session.isSome = true then s else _).Sound
    split
    · exact h
    · refine ⟨h.served, fun ss hss b hb => Or.inr ?_, fun _ => rfl⟩
      cases hss
      trivial
  | stop delivered =>
    show (ShareState.withdrawFromTracker ..).Sound
    rw [withdrawFromTracker_eq]
    exact ⟨h.served, fun ss hss => (nomatch hss), fun hsome => (nomatch hsome)⟩
  | exit => exact ⟨h.served, fun ss hss => (nomatch hss), fun hsome => (nomatch hsome)⟩
  | loop next =>
    show (match s.session with | none => s | some ss => _).Sound
    split
    · exact h
    · rename_i ss hss
      exact h.loopStep hss (hharmless ss hss)

/-- Everything is in place after a run of events that do no harm. -/
theorem run {events : List ShareEvent}
    (hharmless : Along (ShareState.step D) (Harmless D) events .empty) :
    (ShareState.run D events).Sound :=
  hharmless.invariant (fun _ _ hs hC => hs.step hC) empty

end Sound

/-! ## A completed pass -/

/-- The seeding of a pass during which nothing else happens ends with what the store
holds, exactly. -/
theorem seeding_pass {s : ShareState} {announced : Finset Text} (imported : Text → Bool)
    {left : List CacheBlob} {current : Finset Text}
    (hsession : s.session = some ⟨announced, .seeding left current⟩)
    (hcurrent : ∀ b ∈ current, b ∈ s.served)
    (hserved : ∀ b ∈ s.served, b ∈ current ∨ b ∈ left.map CacheBlob.blake3)
    (hharmless : Along (step D) (Harmless D)
      (left.map fun it => .loop (.seed (imported it.blake3))) s) :
    ∃ served current',
      (left.map fun it => ShareEvent.loop (.seed (imported it.blake3))).foldl (step D) s =
        { s with served := served, session := some ⟨announced, .seeding [] current'⟩ } ∧
      ∀ b, b ∈ current' ↔ b ∈ served := by
  induction left generalizing s current with
  | nil =>
    refine ⟨s.served, current, ?_, fun b => ⟨hcurrent b, fun hb => ?_⟩⟩
    · show s = _
      rw [← hsession]
    · exact (hserved b hb).resolve_right List.not_mem_nil
  | cons it left ih =>
    obtain ⟨hit, hrest⟩ := hharmless
    have hnext : step D s (.loop (.seed (imported it.blake3))) =
        s.loopStep announced (.seeding (it :: left) current) (.seed (imported it.blake3)) := by
      show (match s.session with | none => s | some ss => _) = _
      rw [hsession]
    replace hit : if it.blake3 ∈ s.seeded then it.blake3 ∈ s.served
      else if imported it.blake3 && it.blake3 ∈ s.files then s.Offered it.blake3
      else it.blake3 ∉ s.served := hit _ hsession
    rw [List.map_cons, List.foldl_cons]
    rw [hnext] at hrest ⊢
    -- what the item leaves to be seeded
    have hleft : ∀ b ∈ s.served, b ≠ it.blake3 →
        b ∈ current ∨ b ∈ left.map CacheBlob.blake3 := by
      intro b hb hne
      refine (hserved b hb).imp_right fun hmem => ?_
      exact (List.mem_cons.mp hmem).resolve_left hne
    unfold loopStep at hrest ⊢
    by_cases hseeded : it.blake3 ∈ s.seeded
    · simp only [if_pos hseeded] at hit hrest ⊢
      refine ih rfl (fun b hb => ?_) (fun b hb => ?_) hrest
      · obtain rfl | hb := Finset.mem_insert.mp hb
        · exact hit
        · exact hcurrent b hb
      · by_cases hne : b = it.blake3
        · exact Or.inl (Finset.mem_insert.mpr (Or.inl hne))
        · exact (hleft b hb hne).imp_left Finset.mem_insert_of_mem
    · by_cases himported : (imported it.blake3 && it.blake3 ∈ s.files) = true
      · simp only [if_neg hseeded, if_pos himported] at hrest ⊢
        refine ih rfl (fun b hb => ?_) (fun b hb => ?_) hrest
        · exact (Finset.mem_insert.mp hb).elim (fun heq => Finset.mem_insert.mpr (Or.inl heq))
            fun hb => Finset.mem_insert_of_mem (hcurrent b hb)
        · by_cases hne : b = it.blake3
          · exact Or.inl (Finset.mem_insert.mpr (Or.inl hne))
          · exact (hleft b ((Finset.mem_insert.mp hb).resolve_left hne) hne).imp_left
              Finset.mem_insert_of_mem
      · simp only [if_neg hseeded, if_neg himported] at hit hrest ⊢
        refine ih rfl hcurrent (fun b hb => hleft b hb fun heq => ?_) hrest
        rw [heq] at hb
        exact hit hb

/-- **A pass over a state in which everything is in place makes the three views agree.** -/
theorem Sound.reconciled {s : ShareState} (h : s.Sound) {announced : Finset Text}
    (hsession : s.session = some ⟨announced, .sleeping⟩) (imported : Text → Bool)
    (hharmless : Along (ShareState.step D) (Harmless D)
      (completedPass s.buildShareItems imported) s) :
    ((completedPass s.buildShareItems imported).foldl (ShareState.step D) s).Reconciled := by
  obtain ⟨-, hharmless⟩ := hharmless
  -- one whole pass: the loop wakes, seeds each item it listed, and withdraws what it had announced
  -- and no longer offers
  have hwake : s.step D (.loop .wake) =
      { s with session := some ⟨announced, .seeding s.buildShareItems ∅⟩ } := by
    show (match s.session with | none => s | some ss => _) = _
    rw [hsession]
    rfl
  rw [hwake] at hharmless
  obtain ⟨hseeds, hlast⟩ := Along.append.mp hharmless
  have hinvariant := hseeds.invariant (I := Sound) (fun _ _ hs hC => hs.step hC)
    (hwake ▸ h.step (e := .loop .wake) (fun ss hss => by
      rw [hsession] at hss
      cases hss
      trivial))
  obtain ⟨served, current, hend, hcurrent⟩ := seeding_pass (D := D) imported
    (s := { s with session := some ⟨announced, .seeding s.buildShareItems ∅⟩ }) rfl
    (fun b hb => absurd hb (Finset.notMem_empty b))
    (fun b hb => Or.inr (mem_buildShareItems.mpr (h.served b hb))) hseeds
  show (List.foldl _ (s.step D (.loop .wake)) (_ ++ _)).Reconciled
  rw [hwake, List.foldl_append, hend]
  rw [hend] at hinvariant
  have hoffered : ∀ b ∈ served, s.Offered b := hinvariant.served
  refine ⟨fun b => ?_, hoffered⟩
  show b ∈ (s.tracker \ (announced \ current)) ∪ current ↔ s.Offered b ∧ b ∈ served
  rw [Finset.mem_union, Finset.mem_sdiff, Finset.mem_sdiff]
  constructor
  -- what the tracker keeps is either still announced or was there under the session's own items
  · rintro (⟨htracker, hstale⟩ | hmem)
    · obtain hserved | hknown := hinvariant.tracker _ rfl b htracker
      · exact ⟨hoffered b hserved, hserved⟩
      · have hmem : b ∈ current := by
          by_contra hnot
          exact hstale ⟨hknown, hnot⟩
        exact ⟨hoffered b ((hcurrent b).mp hmem), (hcurrent b).mp hmem⟩
    · exact ⟨hoffered b ((hcurrent b).mp hmem), (hcurrent b).mp hmem⟩
  · rintro ⟨-, hserved⟩
    exact Or.inr ((hcurrent b).mpr hserved)

end ShareState

/-- **What is announced and served is what is shareable** right after a completed pass of
the loop, in every run in which no event leaves in the store a blob that may not be
shared or on the tracker a record that nobody will withdraw. -/
theorem reconciled_of_pass (D : Digests) (events : List ShareEvent) (imported : Text → Bool)
    (announced : Finset Text)
    (hsleeping : (ShareState.run D events).session = some ⟨announced, .sleeping⟩)
    (hharmless : Along (ShareState.step D) (ShareState.Harmless D)
      (events ++ ShareState.completedPass (ShareState.run D events).buildShareItems imported)
      .empty) :
    (ShareState.run D (events ++
      ShareState.completedPass (ShareState.run D events).buildShareItems imported)).Reconciled := by
  obtain ⟨hevents, hpass⟩ := Along.append.mp hharmless
  show ShareState.Reconciled (List.foldl _ _ (_ ++ _))
  rw [List.foldl_append]
  exact (ShareState.Sound.run hevents).reconciled hsleeping imported hpass

/-- A public model is downloaded and shared, and the first pass of the loop begins. -/
def shareModel : List ShareEvent := [
  .importManifest (oneFileManifest "mdl_open".toList false abcDigests), .commit abc, .start,
  .loop (.purge true)]

/-- The first pass makes the three views agree. -/
theorem shareModel_reconciled :
    (ShareState.run sampleDigests (shareModel ++ ShareState.completedPass
      (ShareState.run sampleDigests shareModel).buildShareItems fun _ => true)).Reconciled :=
  reconciled_of_pass sampleDigests shareModel (fun _ => true) ∅ (by decide +kernel)
    (by decide +kernel)

/-- While the model is shared, another manifest is imported, which says that it is gated. -/
def gatedImport : List ShareEvent :=
  shareModel ++ ShareState.completedPass
    (ShareState.run sampleDigests shareModel).buildShareItems (fun _ => true) ++
    [.importManifest (oneFileManifest "mdl_gated".toList true abcDigests)]

/-- **A blob stays served that may no longer be shared**: the next pass withdraws its
record, and leaves it in the store. -/
theorem gated_import_served :
    let s := ShareState.run sampleDigests gatedImport
    let s' := ShareState.run sampleDigests
      (gatedImport ++ ShareState.completedPass s.buildShareItems fun _ => true)
    (oneFileManifest "mdl_gated".toList true abcDigests).manifest.validate.toBool = true ∧
      s.session = some ⟨{abcDigests.blake3}, .sleeping⟩ ∧
      abcDigests.blake3 ∉ s'.tracker ∧ abcDigests.blake3 ∈ s'.served ∧
      ¬ s'.Offered abcDigests.blake3 ∧ ¬ s'.Reconciled := by
  have hnot : ¬ (ShareState.run sampleDigests (gatedImport ++ ShareState.completedPass
      (ShareState.run sampleDigests gatedImport).buildShareItems fun _ => true)).Offered
        abcDigests.blake3 := by
    decide +kernel
  have hserved : abcDigests.blake3 ∈ (ShareState.run sampleDigests
      (gatedImport ++ ShareState.completedPass
        (ShareState.run sampleDigests gatedImport).buildShareItems fun _ => true)).served := by
    decide +kernel
  refine ⟨by decide +kernel, by decide +kernel, by decide +kernel, hserved, hnot, fun h => ?_⟩
  exact hnot (h.served _ hserved)

end Atlas
