import Mathlib.Logic.Function.Basic
import Atlas.Transition

/-!
# Transfers

A transfer is a download of one manifest with a control object: flags by which
it is paused and stopped, a state that is shown, and a flag that a run of it is
executing. The registry holds at most one control for a manifest id; callers
look it up, run the download under it, pause or stop it, and take it out of the
registry again.

What is modelled is one manifest id, with any number of callers. Every atomic
load, store, swap and every operation of the registry's mutex is a step of its
own, and the callers' steps interleave freely; the steps of other manifest ids
touch neither this id's slot of the registry nor its controls. The download
body is a point a caller is at: what happens in it is the business of the rest
of the development.
-/

namespace Atlas

/-! ## Controls -/

/-- Lifecycle of a transfer, surfaced to the UI, in the order of the source. -/
inductive TransferState where
  | queued
  | connecting
  | downloading
  | verifying
  | seeding
  | paused
  | stopped
  | complete
  | failed
  | waitingForPeers
  deriving DecidableEq, Repr

/-- Per-transfer cooperative control, shared between the run and whoever asks it to stop. -/
structure TransferControl where
  /-- Cooperative cancel flag. -/
  cancel : Bool
  /-- A Stop (discard the partial) or a Pause (keep it). -/
  discardPartial : Bool
  state : TransferState
  /-- Set while a run drives this control, so that a second one is rejected. -/
  executing : Bool
  deriving DecidableEq, Repr

namespace TransferControl

/-- A control of a transfer that is queued and was asked for nothing. -/
def new : TransferControl := ⟨false, false, .queued, false⟩

/-- Ask the transfer to stop, or no longer; the run notices when it next looks. -/
def setCancel (b : Bool) (c : TransferControl) : TransferControl := { c with cancel := b }

/-- Ask that the partial be thrown away, or no longer. -/
def setDiscard (b : Bool) (c : TransferControl) : TransferControl :=
  { c with discardPartial := b }

/-- Put down the state the user sees, which no decision of the run depends on. -/
def setState (s : TransferState) (c : TransferControl) : TransferControl :=
  { c with state := s }

/-- Say whether the body runs, so that no second one is admitted. -/
def setExecuting (b : Bool) (c : TransferControl) : TransferControl :=
  { c with executing := b }

@[simp] theorem setCancel_executing (b : Bool) (c : TransferControl) :
    (c.setCancel b).executing = c.executing := rfl

@[simp] theorem setDiscard_executing (b : Bool) (c : TransferControl) :
    (c.setDiscard b).executing = c.executing := rfl

@[simp] theorem setState_executing (s : TransferState) (c : TransferControl) :
    (c.setState s).executing = c.executing := rfl

end TransferControl

/-- A state of a transfer that is over, or was interrupted; a transfer in any other state is
kept in the list. -/
def TransferState.removable : TransferState → Bool
  | .complete | .failed | .paused | .stopped => true
  | _ => false

/-! ## Callers -/

/-- How a download body ends, as its caller reads it. -/
inductive BodyResult where
  | ok
  | cancelled
  | stopped
  | failed
  deriving DecidableEq, Repr

/-- Where a run is, from its admission to the end of its control's execution. -/
inductive RunPoint where
  /-- Admitted; about to clear a stale pause or stop. -/
  | clearCancel
  | clearDiscard
  | setQueued
  /-- Parked on the concurrency limit. -/
  | waiting
  /-- The wait was given up; about to ask whether to discard. -/
  | interrupted
  | setConnecting
  /-- In the download body. -/
  | body
  /-- In the body, having found that it may show a state. -/
  | reporting (s : TransferState)
  /-- The body is over, or was never entered. -/
  | finished (r : BodyResult)
  /-- After a Stop: about to take the control out of the registry. -/
  | unregister
  /-- About to ask whether a discard was latched. -/
  | loadDiscard
  /-- About to drop the execution guard. -/
  | dropGuard (discard : Bool)
  deriving DecidableEq, Repr

/-- Where a pause or stop request is, between the three stores it makes. -/
inductive RequestPoint where
  | storeDiscard
  | storeCancel
  | setState
  deriving DecidableEq, Repr

/-- Where a discard of the transfer is, between its looks at the registry and its deletions. -/
inductive DiscardPoint where
  | lookup
  /-- Found a control; about to ask whether a run drives it. -/
  | checking (c : ℕ)
  /-- None does: about to delete the partial files and rows. -/
  | deleting
  | unregister
  deriving DecidableEq, Repr

/-- Where a caller is: doing nothing, about to run, running, or in one of the requests. -/
inductive Phase where
  | idle
  /-- `download` found no control, and is about to register one. -/
  | missed
  /-- Has a control, and is about to ask for admission. -/
  | holding (c : ℕ)
  | running (c : ℕ) (pt : RunPoint)
  /-- In `request_pause`, or in `request_stop` when `discard`. -/
  | requesting (c : ℕ) (discard : Bool) (pt : RequestPoint)
  | discarding (pt : DiscardPoint)
  deriving DecidableEq, Repr

/-- The controls of one manifest id that were ever created, the one that is
registered, and where the callers are. -/
structure Transfers where
  controls : ℕ → TransferControl
  /-- How many controls were created. -/
  created : ℕ
  /-- The registry's slot for the manifest id. -/
  slot : Option ℕ
  callers : ℕ → Phase

/-- Nothing is registered and nobody is doing anything, and no control was ever created. -/
def Transfers.start : Transfers := ⟨fun _ => .new, 0, none, fun _ => .idle⟩

/-! ## Steps -/

/-- What can happen: a caller begins something, or takes a step of what it is doing. -/
inductive TransferAction where
  | registerTransfer (i : ℕ)
  | download (i : ℕ)
  | runDownload (i : ℕ)
  | pause (i : ℕ)
  | stop (i : ℕ)
  | discardTransfer (i : ℕ)
  | removeTransfer (i : ℕ)
  /-- The next atomic step, when there is only one. -/
  | advance (i : ℕ)
  /-- A slot of the concurrency limit is granted. -/
  | grant (i : ℕ)
  /-- The wait for a slot notices the cancel flag. -/
  | interrupt (i : ℕ)
  /-- The body is about to show a state. -/
  | report (i : ℕ) (s : TransferState)
  /-- The body ends. -/
  | finish (i : ℕ) (r : BodyResult)
  deriving DecidableEq, Repr

namespace Transfers

/-- A caller goes to a phase, and every other one stays where it is. -/
def goto (i : ℕ) (p : Phase) (s : Transfers) : Transfers :=
  { s with callers := Function.update s.callers i p }

/-- A control is changed, which every caller that holds it sees. -/
def setControl (c : ℕ) (f : TransferControl → TransferControl) (s : Transfers) :
    Transfers :=
  { s with controls := Function.update s.controls c (f (s.controls c)) }

/-- The registry's slot is emptied; callers that hold the control keep it. -/
def unregister (s : Transfers) : Transfers := { s with slot := none }

/-- The registered control, a new one if there is none, which is created in the same step,
so that two callers get the same one. -/
def register (s : Transfers) : ℕ × Transfers :=
  match s.slot with
  | some c => (c, s)
  | none => (s.created, { s with
      controls := Function.update s.controls s.created .new
      created := s.created + 1
      slot := some s.created })

/-- Look the control up in the registry, and go on with it or without. -/
def lookup (found : ℕ → Phase) (missing : Phase) (i : ℕ) (s : Transfers) : Transfers :=
  match s.slot with
  | some c => s.goto i (found c)
  | none => s.goto i missing

/-- Ask for admission: one swap. Who gets it clears the stale flags next. -/
def tryBegin (i c : ℕ) (s : Transfers) : Transfers :=
  if (s.controls c).executing then s.goto i .idle
  else (s.setControl c (·.setExecuting true)).goto i (.running c .clearCancel)

/-- The state a finished run shows, by how its body ended. -/
def finalState : BodyResult → TransferState
  | .ok => .complete
  | .cancelled => .paused
  | .stopped => .stopped
  | .failed => .failed

/-- The next atomic step of a run, between whose steps other callers may take theirs. -/
def advanceRun (i c : ℕ) (pt : RunPoint) (s : Transfers) : Transfers :=
  match pt with
  | .clearCancel => (s.setControl c (·.setCancel false)).goto i (.running c .clearDiscard)
  | .clearDiscard => (s.setControl c (·.setDiscard false)).goto i (.running c .setQueued)
  | .setQueued => (s.setControl c (·.setState .queued)).goto i (.running c .waiting)
  | .interrupted => s.goto i (.running c (.finished
      (if (s.controls c).discardPartial then .stopped else .cancelled)))
  | .setConnecting => (s.setControl c (·.setState .connecting)).goto i (.running c .body)
  | .reporting st => (s.setControl c (·.setState st)).goto i (.running c .body)
  | .finished r =>
    (s.setControl c (·.setState (finalState r))).goto i
      (.running c (if r = .stopped then .unregister else .loadDiscard))
  | .unregister => s.unregister.goto i (.running c .loadDiscard)
  | .loadDiscard => s.goto i (.running c (.dropGuard (s.controls c).discardPartial))
  | .dropGuard discard =>
    (s.setControl c (·.setExecuting false)).goto i
      (if discard then .discarding .lookup else .idle)
  | .waiting | .body => s

/-- The next atomic step of `request_pause` or `request_stop`, which store two flags and a
state one after another. -/
def advanceRequest (i c : ℕ) (discard : Bool) (pt : RequestPoint) (s : Transfers) :
    Transfers :=
  match pt with
  | .storeDiscard =>
    (s.setControl c (·.setDiscard discard)).goto i (.requesting c discard .storeCancel)
  | .storeCancel =>
    (s.setControl c (·.setCancel true)).goto i (.requesting c discard .setState)
  | .setState =>
    (s.setControl c (·.setState (if discard then .stopped else .paused))).goto i .idle

/-- The next atomic step of `discard_transfer`. A task that still drives the
transfer is asked to stop instead. -/
def advanceDiscard (i : ℕ) (pt : DiscardPoint) (s : Transfers) : Transfers :=
  match pt with
  | .lookup => s.lookup (fun c => .discarding (.checking c)) (.discarding .deleting) i
  | .checking c =>
    if (s.controls c).executing then s.goto i (.requesting c true .storeDiscard)
    else s.goto i (.discarding .deleting)
  | .deleting => s.goto i (.discarding .unregister)
  | .unregister => s.unregister.goto i .idle

/-- The next atomic step of a caller, in whichever phase it is; an idle one takes none. -/
def advance (i : ℕ) (s : Transfers) : Transfers :=
  match s.callers i with
  | .idle => s
  | .missed => s.register.2.goto i (.holding s.register.1)
  | .holding c => s.tryBegin i c
  | .running c pt => s.advanceRun i c pt
  | .requesting c discard pt => s.advanceRequest i c discard pt
  | .discarding pt => s.advanceDiscard i pt

/-- What an idle caller begins; a caller that is busy begins nothing. -/
def begin (i : ℕ) (f : Transfers → Transfers) (s : Transfers) : Transfers :=
  if s.callers i = .idle then f s else s

/-- One step. What is not possible in a state leaves it as it is. -/
def step (s : Transfers) : TransferAction → Transfers
  | .registerTransfer i => s.begin i fun s => s.register.2
  | .download i => s.begin i (lookup .holding .missed i)
  | .runDownload i => s.begin i (lookup .holding .idle i)
  | .pause i => s.begin i (lookup (.requesting · false .storeDiscard) .idle i)
  | .stop i => s.begin i (lookup (.requesting · true .storeDiscard) .idle i)
  | .discardTransfer i => s.begin i (goto i (.discarding .lookup))
  -- only what is shown as over or interrupted is removed
  | .removeTransfer i => s.begin i fun s =>
      if s.slot.any (fun c => (s.controls c).state.removable) then s.unregister else s
  | .advance i => s.advance i
  | .grant i => match s.callers i with
      | .running c .waiting => s.goto i (.running c .setConnecting)
      | _ => s
  | .interrupt i => match s.callers i with
      | .running c .waiting =>
        if (s.controls c).cancel then s.goto i (.running c .interrupted) else s
      | _ => s
  -- a terminal Paused or Stopped is never clobbered
  | .report i st => match s.callers i with
      | .running c .body =>
        if (s.controls c).state = .paused ∨ (s.controls c).state = .stopped ∨ st.removable
        then s
        else s.goto i (.running c (.reporting st))
      | _ => s
  | .finish i r => match s.callers i with
      | .running c .body => s.goto i (.running c (.finished r))
      | _ => s

end Transfers

end Atlas
