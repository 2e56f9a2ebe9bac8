import Atlas.KeyedTable
import Mathlib.Algebra.BigOperators.Group.List.Basic
import Mathlib.Algebra.GroupWithZero.Nat
import Mathlib.Data.Nat.Notation

/-!
# Upload accounting

The peer node counts what it serves from the events its provider sends: a slot for each
request in progress, how many there are, how many for each blob, and the bytes. Bytes
are credited as a request reports them, and what is missing of the final count when it
completes. A slot whose request goes silent is dropped by a sweep, and all those of a
connection when it closes.

The counters are the slots in every run (`Consistent`). The bytes of a request are its
final count if its slot is there from its first report to its completion; what
`charged_completed_iff` says is which other runs they are in.
-/

namespace Atlas

/-- A request: the id of its connection, and its own, as a client numbers its requests anew
on each connection. -/
abbrev RequestKey := ℕ × ℕ

/-- Per-request upload accounting, from the first event of a request to its end. -/
structure Upload (Hash : Type) where
  /-- The blob this request is serving. -/
  hash : Hash
  /-- Bytes counted as uploaded for this request so far. -/
  sent : ℕ
  /-- The last absolute blob offset a progress event reported. A resumed transfer's
  first event lands where the peer left off, so it is the baseline. -/
  lastOffset : Option ℕ
  /-- When an event for this request was last seen. -/
  lastEventAt : ℕ

/-- Live counters of the seeder, which the user is shown. -/
structure IrohMetrics (Hash : Type) [DecidableEq Hash] where
  uploadedBytes : ℕ
  activeUploads : ℕ
  activeByHash : AList fun _ : Hash => ℕ

/-- What the node counts uploads with: the counters, and a slot for each request under way. -/
structure ProviderEventSink (Hash : Type) [DecidableEq Hash] where
  metrics : IrohMetrics Hash
  progress : AList fun _ : RequestKey => Upload Hash
  /-- What was charged so far, and for which request. The code does not keep this. -/
  charges : List (RequestKey × ℕ)

/-- What the provider reports of a request, in an order that the code does not rely on. -/
inductive ProviderEvent (Hash : Type) where
  | getRequestReceived (key : RequestKey) (hash : Hash)
  | transferProgress (key : RequestKey) (hash : Hash) (endOffset : ℕ)
  | transferCompleted (key : RequestKey) (finalBytes : ℕ)
  | transferAborted (key : RequestKey) (finalBytes : Option ℕ)

variable {Hash : Type} [DecidableEq Hash]

namespace IrohMetrics

/-- Count some more bytes; the counter wraps at 64 bits. -/
def addUploaded (bytes : ℕ) (m : IrohMetrics Hash) : IrohMetrics Hash :=
  if 0 < bytes then { m with uploadedBytes := (m.uploadedBytes + bytes) % 2 ^ 64 } else m

/-- Count an upload that starts, overall and for its file; both counts are of uploads that
are under way. -/
def startUpload (hash : Hash) (m : IrohMetrics Hash) : IrohMetrics Hash :=
  { m with
    activeUploads := m.activeUploads + 1
    activeByHash := m.activeByHash.insert hash ((m.activeByHash.lookup hash).getD 0 + 1) }

/-- Count an upload that has ended; the file's count goes when it is down to nothing. -/
def finishUpload (hash : Hash) (m : IrohMetrics Hash) : IrohMetrics Hash :=
  { m with
    activeUploads := m.activeUploads - 1
    activeByHash :=
      match m.activeByHash.lookup hash with
      | none => m.activeByHash
      | some c =>
        if c - 1 = 0 then m.activeByHash.erase hash else m.activeByHash.insert hash (c - 1) }

end IrohMetrics

/-- A request that was just seen, and of which nothing has been sent yet. -/
def Upload.new (hash : Hash) (now : ℕ) : Upload Hash := ⟨hash, 0, none, now⟩

namespace ProviderEventSink

/-- Nothing is being uploaded and nothing was, as when the node starts. -/
def new : ProviderEventSink Hash := ⟨⟨0, 0, ∅⟩, ∅, []⟩

/-- Count bytes as uploaded for a request, and note which one they were charged for. -/
def charge (key : RequestKey) (bytes : ℕ) (s : ProviderEventSink Hash) : ProviderEventSink Hash :=
  { s with
    metrics := s.metrics.addUploaded bytes
    charges := s.charges ++ [(key, bytes)] }

/-- Store the slot of a request that has one, replacing the one it has under its key. -/
def put (key : RequestKey) (up : Upload Hash) (s : ProviderEventSink Hash) :
    ProviderEventSink Hash :=
  { s with progress := s.progress.insert key up }

/-- A request gets its slot, unless it has one; only a new slot counts as an upload that has
started. -/
def noteStarted (key : RequestKey) (hash : Hash) (now : ℕ) (s : ProviderEventSink Hash) :
    ProviderEventSink Hash :=
  if (s.progress.lookup key).isSome then s
  else
    { s with
      progress := s.progress.insert key (.new hash now)
      metrics := s.metrics.startUpload hash }

/-- A slot moves on to an offset: the first one only sets the mark, and a later one is
charged for what lies between. -/
def advance (key : RequestKey) (endOffset : ℕ) (up : Upload Hash) (s : ProviderEventSink Hash) :
    ProviderEventSink Hash :=
  match up.lastOffset with
  -- the first offset is the baseline and is not counted
  | none => s.put key { up with lastOffset := some endOffset }
  | some prev =>
    if prev < endOffset then
      (s.charge key (endOffset - prev)).put key
        { up with sent := up.sent + (endOffset - prev), lastOffset := some endOffset }
    else s.put key up

/-- A request reports how far it is. One that has no slot, for it was swept, gets a new one. -/
def noteProgress (key : RequestKey) (hash : Hash) (endOffset now : ℕ)
    (s : ProviderEventSink Hash) : ProviderEventSink Hash :=
  let s := s.noteStarted key hash now
  match s.progress.lookup key with
  | none => s
  | some up => s.advance key endOffset { up with lastEventAt := now }

/-- A request gives its slot back, and what its reports missed of the final count is added. -/
def noteFinished (key : RequestKey) (finalBytes : Option ℕ) (s : ProviderEventSink Hash) :
    ProviderEventSink Hash :=
  match s.progress.lookup key with
  | none => s
  | some up =>
    let s := { s with progress := s.progress.erase key }
    -- what the deltas missed, the first chunk for one
    let s := match finalBytes with
      | some finalBytes => s.charge key (finalBytes - up.sent)
      | none => s
    { s with metrics := s.metrics.finishUpload up.hash }

/-- Reclaim the slots of requests that went silent for at least so long. -/
def reapStalled (maxIdle now : ℕ) (s : ProviderEventSink Hash) : ProviderEventSink Hash :=
  let stale := (s.progress.entries.filter fun e => maxIdle ≤ now - e.2.lastEventAt).map Sigma.fst
  stale.foldl (fun s key => s.noteFinished key none) s

/-- Reclaim the slots of a connection that closed, one request after another. -/
def connectionClosed (connId : ℕ) (s : ProviderEventSink Hash) : ProviderEventSink Hash :=
  let keys := s.progress.keys.filter fun key => key.1 = connId
  keys.foldl (fun s key => s.noteFinished key none) s

/-- What the sink does with an event of the provider; each event is about the one request
that its key names. -/
def handleEvent (event : ProviderEvent Hash) (now : ℕ) (s : ProviderEventSink Hash) :
    ProviderEventSink Hash :=
  match event with
  | .getRequestReceived key hash => s.noteStarted key hash now
  | .transferProgress key hash endOffset => s.noteProgress key hash endOffset now
  | .transferCompleted key finalBytes => s.noteFinished key (some finalBytes)
  | .transferAborted key finalBytes => s.noteFinished key finalBytes

end ProviderEventSink

/-! ## Runs -/

/-- What happens to the sink: an event is handled, or a sweep or a closing connection
comes to one of the slots it found. -/
inductive SinkOp (Hash : Type) where
  | event (event : ProviderEvent Hash) (now : ℕ)
  | drop (key : RequestKey)

namespace SinkOp

/-- What an event or the sweep leaves of the accounts, with the clock at which it happens. -/
def apply (s : ProviderEventSink Hash) : SinkOp Hash → ProviderEventSink Hash
  | event e now => s.handleEvent e now
  | drop key => s.noteFinished key none

/-- The request of an operation, by its connection and its number on it. -/
def key : SinkOp Hash → RequestKey
  | event (.getRequestReceived key _) _ => key
  | event (.transferProgress key _ _) _ => key
  | event (.transferCompleted key _) _ => key
  | event (.transferAborted key _) _ => key
  | drop key => key

/-- The operation reports something of its request, which goes on, which a completion, an
abort and a sweep do not. -/
def reports : SinkOp Hash → Bool
  | event (.getRequestReceived _ _) _ => true
  | event (.transferProgress _ _ _) _ => true
  | _ => false

/-- The operation ends its request, as a completion and an abort do. -/
def ends : SinkOp Hash → Bool
  | event (.transferCompleted _ _) _ => true
  | event (.transferAborted _ _) _ => true
  | _ => false

end SinkOp

namespace ProviderEventSink

/-- The sink after some operations, from a node that has just started. -/
def run (ops : List (SinkOp Hash)) : ProviderEventSink Hash := ops.foldl SinkOp.apply .new

/-- A sweep comes to its slots one after the other. -/
theorem reapStalled_eq (maxIdle now : ℕ) (s : ProviderEventSink Hash) :
    s.reapStalled maxIdle now =
      (((s.progress.entries.filter fun e => maxIdle ≤ now - e.2.lastEventAt).map
        Sigma.fst).map SinkOp.drop).foldl SinkOp.apply s := by
  rw [List.foldl_map]
  rfl

/-- A closing connection comes to its slots one after the other. -/
theorem connectionClosed_eq (connId : ℕ) (s : ProviderEventSink Hash) :
    s.connectionClosed connId =
      ((s.progress.keys.filter fun key => key.1 = connId).map SinkOp.drop).foldl
        SinkOp.apply s := by
  rw [List.foldl_map]
  rfl

/-! ## The counters -/

/-- A count that is kept only if it is not zero, as the counts by file have no entry for a
file without uploads. -/
def kept (n : ℕ) : Option ℕ := if n = 0 then none else some n

/-- **The counters are the slots**: as many are active as there are, as many for a blob
as serve it, and a blob that nobody pulls has no count. The bytes are what was charged. -/
structure Consistent (s : ProviderEventSink Hash) : Prop where
  active : s.metrics.activeUploads = s.progress.countVal fun _ => true
  byHash : ∀ hash, s.metrics.activeByHash.lookup hash =
    kept (s.progress.countVal fun up => up.hash = hash)
  total : s.metrics.uploadedBytes = (s.charges.map Prod.snd).sum % 2 ^ 64

theorem consistent_new : Consistent (new : ProviderEventSink Hash) where
  active := rfl
  byHash _ := rfl
  total := rfl

/-- Neither counter is zero when a slot is finished. -/
theorem Consistent.counted {s : ProviderEventSink Hash} (hs : s.Consistent) {key : RequestKey}
    {up : Upload Hash} (hup : s.progress.lookup key = some up) :
    0 < s.metrics.activeUploads ∧ ∃ c, s.metrics.activeByHash.lookup up.hash = some (c + 1) := by
  rw [hs.active, hs.byHash, AList.countVal_of_lookup _ hup, AList.countVal_of_lookup _ hup]
  simp [kept]

theorem Consistent.charge {s : ProviderEventSink Hash} (hs : s.Consistent) (key : RequestKey)
    (bytes : ℕ) : (s.charge key bytes).Consistent := by
  unfold ProviderEventSink.charge IrohMetrics.addUploaded
  have htotal : (s.metrics.uploadedBytes + bytes) % 2 ^ 64 =
      ((s.charges ++ [(key, bytes)]).map Prod.snd).sum % 2 ^ 64 := by
    rw [hs.total, List.map_append, List.sum_append, Nat.mod_add_mod]
    simp
  by_cases hbytes : 0 < bytes
  · rw [if_pos hbytes]
    exact ⟨hs.active, hs.byHash, htotal⟩
  · rw [if_neg hbytes]
    obtain rfl : bytes = 0 := by omega
    refine ⟨hs.active, hs.byHash, ?_⟩
    show s.metrics.uploadedBytes = _
    rw [← htotal, Nat.add_zero, hs.total, Nat.mod_mod]

/-- A slot stays the slot of its blob. -/
theorem Consistent.put {s : ProviderEventSink Hash} (hs : s.Consistent) {key : RequestKey}
    {up up' : Upload Hash} (hup : s.progress.lookup key = some up) (hhash : up'.hash = up.hash) :
    (s.put key up').Consistent where
  active := by
    show s.metrics.activeUploads = (s.progress.insert key up').countVal _
    rw [hs.active, AList.countVal_insert, AList.countVal_of_lookup _ hup]
  byHash hash := by
    show s.metrics.activeByHash.lookup hash = kept ((s.progress.insert key up').countVal _)
    rw [hs.byHash, AList.countVal_insert, AList.countVal_of_lookup _ hup, hhash]
  total := hs.total

theorem Consistent.noteStarted {s : ProviderEventSink Hash} (hs : s.Consistent)
    (key : RequestKey) (hash : Hash) (now : ℕ) : (s.noteStarted key hash now).Consistent := by
  unfold ProviderEventSink.noteStarted
  by_cases hsome : (s.progress.lookup key).isSome = true
  · rw [if_pos hsome]
    exact hs
  · rw [if_neg hsome]
    have herase := AList.erase_of_lookup_none
      (Option.not_isSome_iff_eq_none.mp hsome : s.progress.lookup key = none)
    refine ⟨?_, fun hash' => ?_, hs.total⟩
    · show s.metrics.activeUploads + 1 = (s.progress.insert key _).countVal _
      rw [AList.countVal_insert, herase, hs.active]
      rfl
    · show (s.metrics.activeByHash.insert hash _).lookup hash' =
        kept ((s.progress.insert key (Upload.new hash now)).countVal _)
      rw [AList.countVal_insert, herase, hs.byHash]
      by_cases heq : hash' = hash
      · subst heq
        rw [AList.lookup_insert]
        unfold kept
        by_cases hzero : (s.progress.countVal fun up => up.hash = hash') = 0
        · simp [hzero, Upload.new]
        · simp [hzero, Upload.new]
      · rw [AList.lookup_insert_ne heq, hs.byHash]
        simp [Upload.new, Ne.symm heq]

theorem Consistent.noteProgress {s : ProviderEventSink Hash} (hs : s.Consistent)
    (key : RequestKey) (hash : Hash) (endOffset now : ℕ) :
    (s.noteProgress key hash endOffset now).Consistent := by
  have hstarted := hs.noteStarted key hash now
  unfold ProviderEventSink.noteProgress
  dsimp only
  generalize s.noteStarted key hash now = s' at hstarted
  cases hup : s'.progress.lookup key with
  | none => exact hstarted
  | some up =>
    show (s'.advance key endOffset { up with lastEventAt := now }).Consistent
    unfold advance
    cases hlast : ({ up with lastEventAt := now } : Upload Hash).lastOffset with
    | none => exact hstarted.put hup rfl
    | some prev =>
      dsimp only
      by_cases hlt : prev < endOffset
      · rw [if_pos hlt]
        exact (hstarted.charge key _).put hup rfl
      · rw [if_neg hlt]
        exact hstarted.put hup rfl

/-- Erasing a slot and counting it down. -/
theorem Consistent.finish {s : ProviderEventSink Hash} (hs : s.Consistent) {key : RequestKey}
    {up : Upload Hash} (hup : s.progress.lookup key = some up) :
    ({ s with
      progress := s.progress.erase key
      metrics := s.metrics.finishUpload up.hash } : ProviderEventSink Hash).Consistent := by
  refine ⟨?_, fun hash => ?_, hs.total⟩
  · show s.metrics.activeUploads - 1 = (s.progress.erase key).countVal _
    rw [hs.active, AList.countVal_of_lookup _ hup]
    rfl
  · obtain ⟨-, c, hc⟩ := hs.counted hup
    have hcount := hs.byHash up.hash
    rw [hc, AList.countVal_of_lookup _ hup, decide_eq_true rfl] at hcount
    have hc' : (s.progress.erase key).countVal (fun up' => up'.hash = up.hash) = c := by
      simpa [kept, eq_comm] using hcount
    show (match s.metrics.activeByHash.lookup up.hash with
      | none => s.metrics.activeByHash
      | some c => if c - 1 = 0 then s.metrics.activeByHash.erase up.hash
          else s.metrics.activeByHash.insert up.hash (c - 1)).lookup hash = _
    rw [hc]
    by_cases heq : hash = up.hash
    · subst heq
      rw [hc']
      by_cases hzero : c = 0
      · simp [hzero, kept]
      · simp [hzero, kept]
    · have hkeep : s.metrics.activeByHash.lookup hash =
          kept ((s.progress.erase key).countVal fun up' => up'.hash = hash) := by
        rw [hs.byHash, AList.countVal_of_lookup _ hup]
        simp [Ne.symm heq]
      by_cases hzero : c = 0
      · simp [hzero, AList.lookup_erase_ne heq, hkeep]
      · simp [hzero, AList.lookup_insert_ne heq, hkeep]

theorem Consistent.noteFinished {s : ProviderEventSink Hash} (hs : s.Consistent)
    (key : RequestKey) (finalBytes : Option ℕ) : (s.noteFinished key finalBytes).Consistent := by
  unfold ProviderEventSink.noteFinished
  cases hup : s.progress.lookup key with
  | none => exact hs
  | some up =>
    cases finalBytes with
    | none => exact hs.finish hup
    | some finalBytes => exact (hs.charge key (finalBytes - up.sent)).finish hup

/-- **One operation.** -/
theorem Consistent.apply {s : ProviderEventSink Hash} (hs : s.Consistent) (op : SinkOp Hash) :
    (op.apply s).Consistent := by
  cases op with
  | drop key => exact hs.noteFinished key none
  | event e now =>
    cases e with
    | getRequestReceived key hash => exact hs.noteStarted key hash now
    | transferProgress key hash endOffset => exact hs.noteProgress key hash endOffset now
    | transferCompleted key finalBytes => exact hs.noteFinished key (some finalBytes)
    | transferAborted key finalBytes => exact hs.noteFinished key finalBytes

/-- **The counters are the slots after every run.** -/
theorem run_consistent (ops : List (SinkOp Hash)) : (run ops).Consistent := by
  unfold run
  exact List.foldlRecOn ops SinkOp.apply consistent_new fun _ hs op _ => hs.apply op

/-! ## The bytes of a request -/

/-- The bytes charged for a request, over all its slots. -/
def charged (key : RequestKey) (s : ProviderEventSink Hash) : ℕ :=
  ((s.charges.filter fun c => c.1 = key).map Prod.snd).sum

end ProviderEventSink

/-- The offsets a request reported: those before each time its slot was dropped, and
those since, if it has a slot. -/
structure Reported where
  earlier : List (List ℕ)
  current : Option (List ℕ)

namespace Reported

/-- A request that has reported nothing, and has no slot. -/
def empty : Reported := ⟨[], none⟩

/-- The slot is dropped; what it reported is one of the earlier runs from now on. -/
def cut (r : Reported) : Reported :=
  match r.current with
  | none => r
  | some offsets => ⟨r.earlier ++ [offsets], none⟩

/-- What an operation reports of a request that goes on, and what it cuts off when it ends
the request. -/
def step (key : RequestKey) (r : Reported) (op : SinkOp Hash) : Reported :=
  if op.key = key then
    match op with
    | .event (.getRequestReceived _ _) _ => ⟨r.earlier, some (r.current.getD [])⟩
    | .event (.transferProgress _ _ endOffset) _ =>
      ⟨r.earlier, some (r.current.getD [] ++ [endOffset])⟩
    | _ => r.cut
  else r

/-- What some operations report of a request, slot after slot. -/
def ofOps (key : RequestKey) (ops : List (SinkOp Hash)) : Reported := ops.foldl (step key) empty

/-- The forward progress of some offsets: from the first to the highest. -/
def forward : List ℕ → ℕ
  | [] => 0
  | first :: rest => rest.foldl max first - first

/-- The highest of some offsets, or nothing where there are none. -/
def highest : List ℕ → Option ℕ
  | [] => none
  | first :: rest => some (rest.foldl max first)

/-- **A completion makes up the final count**: the request has its slot, reported no
more than the final count since it has it, and no progress before; or it has no slot,
and the progress it reported adds up to the final count. -/
def MakesUp (r : Reported) (finalBytes : ℕ) : Prop :=
  match r.current with
  | some offsets => (r.earlier.map forward).sum = 0 ∧ forward offsets ≤ finalBytes
  | none => (r.earlier.map forward).sum = finalBytes

instance (r : Reported) (finalBytes : ℕ) : Decidable (r.MakesUp finalBytes) := by
  unfold MakesUp
  cases r.current <;> infer_instance

theorem forward_append {offsets : List ℕ} {prev : ℕ} (h : highest offsets = some prev) (x : ℕ) :
    forward (offsets ++ [x]) = forward offsets + (x - prev) ∧
      highest (offsets ++ [x]) = some (max prev x) := by
  cases offsets with
  | nil => cases h
  | cons first rest =>
    have hprev : rest.foldl max first = prev := Option.some.inj h
    have hle : first ≤ prev := by
      rw [← hprev]
      exact List.foldlRecOn (motive := fun m => first ≤ m) rest max le_rfl
        fun _ hm _ _ => hm.trans (le_max_left _ _)
    show (rest ++ [x]).foldl max first - first = rest.foldl max first - first + (x - prev) ∧
      some ((rest ++ [x]).foldl max first) = some (max prev x)
    rw [List.foldl_append, List.foldl_cons, List.foldl_nil, hprev]
    exact ⟨by omega, rfl⟩

end Reported

namespace ProviderEventSink

open Reported

variable {s : ProviderEventSink Hash} {key key' : RequestKey}

theorem charged_charge (bytes : ℕ) :
    (s.charge key' bytes).charged key = s.charged key + if key' = key then bytes else 0 := by
  unfold charged charge
  rw [List.filter_append, List.map_append, List.sum_append]
  by_cases h : key' = key
  · simp [h]
  · simp [h]

/-- **The slot of a request follows what it reports.** -/
structure Follows (key : RequestKey) (s : ProviderEventSink Hash) (r : Reported) : Prop where
  /-- A request has a slot from its first report on, until it is dropped. -/
  slot : match r.current with
    | none => s.progress.lookup key = none
    | some offsets => ∃ up, s.progress.lookup key = some up ∧ up.sent = forward offsets ∧
        up.lastOffset = highest offsets
  charged_eq : s.charged key =
    (r.earlier.map forward).sum + forward (r.current.getD [])

/-- Nothing changed for a request: neither its slot nor what was charged for it. -/
def Unchanged (key : RequestKey) (s s' : ProviderEventSink Hash) : Prop :=
  s'.progress.lookup key = s.progress.lookup key ∧ s'.charged key = s.charged key

theorem Unchanged.trans {s s' s'' : ProviderEventSink Hash} (h : Unchanged key s s')
    (h' : Unchanged key s' s'') : Unchanged key s s'' :=
  ⟨h'.1.trans h.1, h'.2.trans h.2⟩

theorem unchanged_charge (h : key' ≠ key) (bytes : ℕ) : Unchanged key s (s.charge key' bytes) := by
  refine ⟨rfl, ?_⟩
  rw [charged_charge, if_neg h, Nat.add_zero]

theorem unchanged_put (h : key' ≠ key) (up : Upload Hash) : Unchanged key s (s.put key' up) :=
  ⟨AList.lookup_insert_ne h.symm, rfl⟩

theorem unchanged_noteStarted (h : key' ≠ key) (hash : Hash) (now : ℕ) :
    Unchanged key s (s.noteStarted key' hash now) := by
  unfold noteStarted
  split
  · exact ⟨rfl, rfl⟩
  · exact ⟨AList.lookup_insert_ne h.symm, rfl⟩

theorem unchanged_noteProgress (h : key' ≠ key) (hash : Hash) (endOffset now : ℕ) :
    Unchanged key s (s.noteProgress key' hash endOffset now) := by
  refine (unchanged_noteStarted h hash now).trans ?_
  unfold noteProgress
  dsimp only
  split
  · exact ⟨rfl, rfl⟩
  · unfold advance
    split
    · exact unchanged_put h _
    · split
      · exact (unchanged_charge h _).trans (unchanged_put h _)
      · exact unchanged_put h _

theorem unchanged_noteFinished (h : key' ≠ key) (finalBytes : Option ℕ) :
    Unchanged key s (s.noteFinished key' finalBytes) := by
  unfold noteFinished
  split
  · exact ⟨rfl, rfl⟩
  · cases finalBytes with
    | none => exact ⟨AList.lookup_erase_ne h.symm, rfl⟩
    | some finalBytes =>
      exact ⟨AList.lookup_erase_ne h.symm, (unchanged_charge h _).2⟩

/-- **What another request does changes nothing for a request.** -/
theorem unchanged_apply {op : SinkOp Hash} (h : op.key ≠ key) : Unchanged key s (op.apply s) := by
  cases op with
  | drop key' => exact unchanged_noteFinished h none
  | event e now =>
    cases e with
    | getRequestReceived key' hash => exact unchanged_noteStarted h hash now
    | transferProgress key' hash endOffset => exact unchanged_noteProgress h hash endOffset now
    | transferCompleted key' finalBytes => exact unchanged_noteFinished h (some finalBytes)
    | transferAborted key' finalBytes => exact unchanged_noteFinished h finalBytes

/-! ### What a request reports -/

theorem Follows.noteStarted {r : Reported} (hs : s.Follows key r) (hash : Hash) (now : ℕ) :
    (s.noteStarted key hash now).Follows key ⟨r.earlier, some (r.current.getD [])⟩ := by
  obtain ⟨earlier, current⟩ := r
  obtain ⟨hslot, hcharged⟩ := hs
  unfold ProviderEventSink.noteStarted
  cases current with
  | none =>
    have hnone : s.progress.lookup key = none := hslot
    rw [if_neg (by rw [hnone]; exact Bool.false_ne_true)]
    exact ⟨⟨_, AList.lookup_insert _, rfl, rfl⟩, hcharged⟩
  | some offsets =>
    obtain ⟨up, hup, hsent, hlast⟩ := hslot
    rw [if_pos (by rw [hup]; rfl)]
    exact ⟨⟨up, hup, hsent, hlast⟩, hcharged⟩

theorem Follows.noteProgress {r : Reported} (hs : s.Follows key r) (hash : Hash)
    (endOffset now : ℕ) :
    (s.noteProgress key hash endOffset now).Follows key
      ⟨r.earlier, some (r.current.getD [] ++ [endOffset])⟩ := by
  obtain ⟨⟨up, hup, hsent, hlast⟩, hcharged⟩ := hs.noteStarted hash now
  unfold ProviderEventSink.noteProgress
  dsimp only
  generalize s.noteStarted key hash now = s' at hup hcharged
  generalize r.current.getD [] = offsets at hsent hlast hcharged
  rw [hup]
  unfold advance
  cases hprev : highest offsets with
  | none =>
    -- the first offset
    obtain rfl : offsets = [] := by
      cases offsets with
      | nil => rfl
      | cons _ _ => cases hprev
    have hzero : forward ([] ++ [endOffset]) = 0 := Nat.sub_self endOffset
    dsimp only
    rw [hlast, hprev]
    refine ⟨⟨_, AList.lookup_insert _, ?_, rfl⟩, ?_⟩
    · rw [hzero]
      exact hsent
    · show s'.charged key = (r.earlier.map forward).sum + forward ([] ++ [endOffset])
      rw [hzero]
      exact hcharged
  | some prev =>
    obtain ⟨hforward, hhighest⟩ := forward_append hprev endOffset
    dsimp only
    rw [hlast, hprev]
    dsimp only
    by_cases hlt : prev < endOffset
    · rw [if_pos hlt]
      refine ⟨⟨_, AList.lookup_insert _, ?_, ?_⟩, ?_⟩
      · show up.sent + (endOffset - prev) = forward (offsets ++ [endOffset])
        rw [hforward, hsent]
      · show some endOffset = highest (offsets ++ [endOffset])
        rw [hhighest, max_eq_right hlt.le]
      · show (s'.charge key (endOffset - prev)).charged key =
          (r.earlier.map forward).sum + forward (offsets ++ [endOffset])
        rw [charged_charge, if_pos rfl, hcharged, hforward, ← Nat.add_assoc]
        rfl
    · have hle : endOffset ≤ prev := Nat.le_of_not_lt hlt
      rw [if_neg hlt]
      rw [Nat.sub_eq_zero_of_le hle, Nat.add_zero] at hforward
      refine ⟨⟨_, AList.lookup_insert _, hsent.trans hforward.symm, ?_⟩, ?_⟩
      · show some prev = highest (offsets ++ [endOffset])
        rw [hhighest, max_eq_left hle]
      · show s'.charged key = (r.earlier.map forward).sum + forward (offsets ++ [endOffset])
        rw [hforward]
        exact hcharged

theorem Follows.drop {r : Reported} (hs : s.Follows key r) :
    (s.noteFinished key none).Follows key r.cut := by
  obtain ⟨earlier, current⟩ := r
  obtain ⟨hslot, hcharged⟩ := hs
  unfold ProviderEventSink.noteFinished
  cases current with
  | none =>
    have hnone : s.progress.lookup key = none := hslot
    rw [hnone]
    exact ⟨hslot, hcharged⟩
  | some offsets =>
    obtain ⟨up, hup, -, -⟩ := hslot
    rw [hup]
    refine ⟨AList.lookup_erase key s.progress, ?_⟩
    show s.charged key = ((earlier ++ [offsets]).map forward).sum + 0
    rw [hcharged]
    simp

/-- **One operation that does not end the request.** -/
theorem Follows.apply {r : Reported} (hs : s.Follows key r) {op : SinkOp Hash}
    (hop : op.key = key → op.ends = false) : (op.apply s).Follows key (r.step key op) := by
  unfold Reported.step
  by_cases hkey : op.key = key
  · rw [if_pos hkey]
    have hends := hop hkey
    cases op with
    | drop key' =>
      obtain rfl : key' = key := hkey
      exact hs.drop
    | event e now =>
      cases e with
      | getRequestReceived key' hash =>
        obtain rfl : key' = key := hkey
        exact hs.noteStarted hash now
      | transferProgress key' hash endOffset =>
        obtain rfl : key' = key := hkey
        exact hs.noteProgress hash endOffset now
      | transferCompleted key' finalBytes => cases hends
      | transferAborted key' finalBytes => cases hends
  · rw [if_neg hkey]
    obtain ⟨hlookup, hcharged⟩ := unchanged_apply (s := s) hkey
    refine ⟨?_, hcharged.trans hs.charged_eq⟩
    have hslot := hs.slot
    rw [hlookup]
    exact hslot

/-- **The slot follows what is reported, in every run.** -/
theorem run_follows (key : RequestKey) {ops : List (SinkOp Hash)}
    (hops : ∀ op ∈ ops, op.key = key → op.ends = false) :
    (run ops).Follows key (Reported.ofOps key ops) := by
  unfold run Reported.ofOps
  have hnew : Follows key (new : ProviderEventSink Hash) Reported.empty := ⟨rfl, rfl⟩
  generalize (new : ProviderEventSink Hash) = s at hnew
  generalize Reported.empty = r at hnew
  induction ops generalizing s r with
  | nil => exact hnew
  | cons op ops ih =>
    exact ih (fun op hop => hops op (.tail _ hop)) _ _ (hnew.apply (hops op (.head _)))

/-! ### Completion -/

/-- What a completion charges: what the reported progress is short of the final count. -/
theorem Follows.completed {r : Reported} (hs : s.Follows key r) (finalBytes : ℕ) :
    (s.noteFinished key (some finalBytes)).progress.lookup key = none ∧
      ((s.noteFinished key (some finalBytes)).charged key = finalBytes ↔
        r.MakesUp finalBytes) := by
  obtain ⟨earlier, current⟩ := r
  obtain ⟨hslot, hcharged⟩ := hs
  unfold ProviderEventSink.noteFinished MakesUp
  cases current with
  | none =>
    have hnone : s.progress.lookup key = none := hslot
    have hsum : s.charged key = (earlier.map forward).sum := hcharged
    rw [hnone]
    exact ⟨hnone, by rw [hsum]⟩
  | some offsets =>
    obtain ⟨up, hup, hsent, -⟩ := hslot
    rw [hup]
    refine ⟨AList.lookup_erase key s.progress, ?_⟩
    show (s.charge key (finalBytes - up.sent)).charged key = finalBytes ↔ _
    have hsum : s.charged key = (earlier.map forward).sum + forward offsets := hcharged
    rw [charged_charge, if_pos rfl, hsum, hsent]
    dsimp only
    omega

/-- Nothing is charged for a request that has no slot and reports nothing. -/
theorem unreported {ops : List (SinkOp Hash)} (hnone : s.progress.lookup key = none)
    (hops : ∀ op ∈ ops, op.key = key → op.reports = false) :
    (ops.foldl SinkOp.apply s).charged key = s.charged key := by
  induction ops generalizing s with
  | nil => rfl
  | cons op ops ih =>
    have hsame : Unchanged key s (op.apply s) := by
      by_cases hkey : op.key = key
      · have hreports := hops op (.head _) hkey
        have hfinished : ∀ f, s.noteFinished key f = s := fun f => by
          unfold noteFinished
          rw [hnone]
        cases op with
        | drop key' =>
          obtain rfl : key' = key := hkey
          exact ⟨by rw [SinkOp.apply, hfinished], by rw [SinkOp.apply, hfinished]⟩
        | event e now =>
          cases e with
          | getRequestReceived key' hash => cases hreports
          | transferProgress key' hash endOffset => cases hreports
          | transferCompleted key' f =>
            obtain rfl : key' = key := hkey
            show Unchanged key' s (s.noteFinished key' (some f))
            rw [hfinished]
            exact ⟨rfl, rfl⟩
          | transferAborted key' f =>
            obtain rfl : key' = key := hkey
            show Unchanged key' s (s.noteFinished key' f)
            rw [hfinished]
            exact ⟨rfl, rfl⟩
      · exact unchanged_apply hkey
    rw [List.foldl_cons, ih (hsame.1.trans hnone) fun op hop => hops op (.tail _ hop), hsame.2]

/-- **The accounts of every run.** The counters are the slots, and neither is zero when
a slot is finished. The bytes of a request that completes are its final count if and
only if the completion makes it up; nothing is added later. -/
theorem upload_accounting (ops : List (SinkOp Hash)) :
    (run ops).Consistent ∧
      (∀ key up, (run ops).progress.lookup key = some up →
        0 < (run ops).metrics.activeUploads ∧
          ∃ c, (run ops).metrics.activeByHash.lookup up.hash = some (c + 1)) ∧
      ∀ before key finalBytes now after,
        ops = before ++ .event (.transferCompleted key finalBytes) now :: after →
        (∀ op ∈ before, op.key = key → op.ends = false) →
        (∀ op ∈ after, op.key = key → op.reports = false) →
        ((run ops).charged key = finalBytes ↔
          (Reported.ofOps key before).MakesUp finalBytes) := by
  have hs := run_consistent ops
  refine ⟨hs, fun key up hup => hs.counted hup, ?_⟩
  rintro before key finalBytes now after rfl hbefore hafter
  obtain ⟨hnone, hcharged⟩ := (run_follows key hbefore).completed finalBytes
  have hrun : run (before ++ .event (.transferCompleted key finalBytes) now :: after) =
      after.foldl SinkOp.apply ((run before).noteFinished key (some finalBytes)) := by
    unfold run
    rw [List.foldl_append]
    rfl
  rw [hrun, unreported hnone hafter]
  exact hcharged

end ProviderEventSink

/-! ## Completions in time and late -/

/-- Two requests for one file, of which one goes on to its end and the other goes silent. -/
def punctualCompletion : List (SinkOp ℕ) := [
  .event (.getRequestReceived (1, 1) 7) 0,
  .event (.transferProgress (1, 1) 7 10) 1,
  .event (.getRequestReceived (2, 1) 7) 1,
  .event (.transferProgress (2, 1) 7 20) 2,
  .event (.transferProgress (1, 1) 7 30) 3,
  .event (.transferCompleted (1, 1) 40) 4,
  .drop (2, 1)]

/-- The one that completes has its final count. -/
theorem punctual_completion_accounts :
    (ProviderEventSink.run punctualCompletion).Consistent ∧
      (ProviderEventSink.run punctualCompletion).charged (1, 1) = 40 := by
  obtain ⟨hconsistent, -, hcompleted⟩ := ProviderEventSink.upload_accounting punctualCompletion
  refine ⟨hconsistent, (hcompleted (punctualCompletion.take 5) (1, 1) 40 4 [.drop (2, 1)] rfl
    (by decide) (by decide)).mpr ?_⟩
  decide

/-- A request goes silent after thirty bytes, is swept, and then goes on to its end. -/
def lateCompletion : List (SinkOp ℕ) := [
  .event (.getRequestReceived (1, 1) 7) 0,
  .event (.transferProgress (1, 1) 7 10) 1,
  .event (.transferProgress (1, 1) 7 30) 2,
  .drop (1, 1),
  .event (.transferProgress (1, 1) 7 40) 20,
  .event (.transferCompleted (1, 1) 40) 21]

/-- **The bytes before the sweep are counted twice.** -/
theorem late_completion_counted_twice :
    Reported.forward [10, 30, 40] ≤ 40 ∧
      (ProviderEventSink.run lateCompletion).charged (1, 1) ≠ 40 ∧
      (ProviderEventSink.run lateCompletion).metrics.uploadedBytes = 60 := by
  decide +kernel

end Atlas
