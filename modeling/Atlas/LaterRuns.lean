import Atlas.Admission
import Atlas.Transition

/-!
# A stop and the runs after it

A stop is made of the control that is registered when it is asked for, and a discard of a
transfer begins by looking one up. What a stopped run does at its end, and what a discard
does, goes by the manifest id, and so reaches whatever is registered under it by then.

Next to the transfers the model keeps, for every caller, the control that its stop or
discard was asked of. A stop strays when it cancels, discards the files of, or unregisters
a control that was registered after that one. `stop_stays_with_its_run` says that none
does as long as nothing new is registered while a stop or discard still has something to
do; `stop_reaches_later_run` is a run in which the stop of one download cancels the next.
-/

namespace Atlas

open Transition

/-- The run deletes partial files or empties the registry's slot before it is over, as
far as it can tell from the discard flag of its control. -/
def RunPoint.stops (latched : Bool) : RunPoint → Bool
  -- a flag that is set here is stale, and is cleared
  | .clearCancel | .clearDiscard => false
  | .finished .stopped | .unregister => true
  | .dropGuard discard => discard
  | _ => latched

/-- A run that discards without having been asked to discards anyway. -/
theorem RunPoint.stops_of_false {pt : RunPoint} (h : pt.stops false = true) (latched : Bool) :
    pt.stops latched = true := by
  cases pt with
  | finished r =>
    cases r with
    | stopped => rfl
    | _ => cases h
  | unregister => rfl
  | dropGuard discard => exact h
  | _ => cases h

/-- The caller may run this control, and has not asked yet whether to discard. -/
def Phase.mayDiscard (c : ℕ) : Phase → Prop
  | .holding c' => c' = c
  | .running c' pt => c' = c ∧ ∀ discard, pt ≠ .dropGuard discard
  | _ => False

/-- Transfers, and the control that each caller's last stop or discard was asked of. -/
structure StopTrace where
  transfers : Transfers
  origin : ℕ → Option ℕ

/-- A step of a caller, or that somebody takes the control out of the registry. -/
inductive StopAction where
  | act (a : TransferAction)
  | remove
  deriving DecidableEq, Repr

namespace StopTrace

/-- Nothing has happened yet, and no control has an origin; the trace remembers for each
control the call that has registered it. -/
def start : StopTrace := ⟨.start, fun _ => none⟩

/-- What a stop or discard is asked of is settled when it looks the control up. A run
that ends with a discard goes on for its own control. -/
def origins (s : StopTrace) : TransferAction → ℕ → Option ℕ
  | .stop i =>
    if s.transfers.callers i = .idle then Function.update s.origin i s.transfers.slot
    else s.origin
  | .discardTransfer i =>
    if s.transfers.callers i = .idle then Function.update s.origin i none else s.origin
  | .advance i =>
    match s.transfers.callers i with
    | .running c (.dropGuard true) => Function.update s.origin i (some c)
    | .discarding .lookup =>
      if s.origin i = none then Function.update s.origin i s.transfers.slot else s.origin
    | _ => s.origin
  | _ => s.origin

/-- A body only ends as stopped when it is asked to discard. -/
def possible (s : StopTrace) : TransferAction → Bool
  | .finish i .stopped =>
    match s.transfers.callers i with
    | .running c _ => (s.transfers.controls c).discardPartial
    | _ => true
  | _ => true

/-- An action that is possible is taken, and whatever it asked for keeps its origin. -/
def step (s : StopTrace) : StopAction → StopTrace
  | .act a => if s.possible a then ⟨s.transfers.step a, s.origins a⟩ else s
  | .remove => ⟨s.transfers.unregister, s.origin⟩

/-- The control is registered, or a run of it is executing; as long as it is, a stop that is
aimed at it is aimed at a run that exists. -/
def Live (s : StopTrace) (t : ℕ) : Prop :=
  s.transfers.slot = some t ∨ (s.transfers.controls t).executing = true

/-- **What a stop reaches.** With this step, a stop or discard that was asked of the
control `o` cancels `t`, or discards its files, or unregisters it. -/
def Reaches (s : StopTrace) (a : StopAction) (o t : ℕ) : Prop :=
  match a with
  | .act (.advance i) =>
    match s.transfers.callers i with
    | .requesting c true .storeDiscard => s.origin i = some o ∧ t = c
    | .requesting c true .storeCancel => s.origin i = some o ∧ t = c
    | .discarding .deleting => s.origin i = some o ∧ s.Live t
    | .discarding .unregister => s.origin i = some o ∧ s.transfers.slot = some t
    | .running c .unregister => o = c ∧ s.transfers.slot = some t
    | _ => False
  -- a body that is stopped deletes the partial files
  | .act (.finish i .stopped) =>
    match s.transfers.callers i with
    | .running c .body =>
      o = c ∧ (s.transfers.controls c).discardPartial = true ∧ s.Live t
    | _ => False
  | _ => False

/-- The step puts a new control into the registry, for which the registry must have no
control and the caller must be about to register one. -/
def Registers (s : StopTrace) : StopAction → Prop
  | .act (.registerTransfer i) => s.transfers.callers i = .idle ∧ s.transfers.slot = none
  | .act (.advance i) => s.transfers.callers i = .missed ∧ s.transfers.slot = none
  | _ => False

instance decidableRegisters (s : StopTrace) (a : StopAction) : Decidable (s.Registers a) :=
  match a with
  | .act (.registerTransfer _) => inferInstanceAs (Decidable (_ ∧ _))
  | .act (.advance _) => inferInstanceAs (Decidable (_ ∧ _))
  | .act (.download _) | .act (.runDownload _) | .act (.pause _) | .act (.stop _)
  | .act (.discardTransfer _) | .act (.removeTransfer _) | .act (.grant _)
  | .act (.interrupt _) | .act (.report _ _) | .act (.finish _ _) | .remove =>
    .isFalse id

/-- A stop or discard that was asked of a control is not over: a caller is discarding, is
in a run that will discard, or is about to latch a discard that a run can still see. -/
def Pending (s : StopTrace) (k : ℕ) : Prop :=
  match s.transfers.callers k with
  | .discarding _ => s.origin k ≠ none
  | .running c pt => pt.stops (s.transfers.controls c).discardPartial = true
  | .requesting c true .storeDiscard => ∃ j, (s.transfers.callers j).mayDiscard c
  | _ => False

/-- Nothing new is registered while a stop or discard is not over. -/
def Clear (s : StopTrace) (a : StopAction) : Prop := s.Registers a → ∀ k, ¬ s.Pending k

/-! ## The invariant -/

/-- What is known of a caller from where it is: the control it goes by exists, and one
whose stop or discard has something left to do is the newest. -/
def PhaseOk (s : Transfers) (origin : Option ℕ) : Phase → Prop
  | .idle => True
  | .missed => True
  | .holding c => c < s.created
  | .running c pt => c < s.created ∧
      (pt.stops (s.controls c).discardPartial = true → s.created = c + 1)
  | .requesting c discard _ => c < s.created ∧ (discard = true → origin = some c)
  | .discarding pt => (∀ o, origin = some o → s.created = o + 1) ∧
      ∀ c, pt = .checking c → c < s.created ∧ origin = some c

/-- **No stop strays**: as long as a stop or discard has something left to do, nothing
was registered after the control it was asked of. -/
structure Scoped (s : StopTrace) : Prop where
  slot : ∀ c, s.transfers.slot = some c → s.transfers.created = c + 1
  executing : ∀ c, (s.transfers.controls c).executing = true → c < s.transfers.created
  phase : ∀ i, PhaseOk s.transfers (s.origin i) (s.transfers.callers i)
  aimed : ∀ j k c, s.transfers.callers j = .requesting c true .storeDiscard →
    (s.transfers.callers k).mayDiscard c → s.transfers.created = c + 1

theorem scoped_start : start.Scoped :=
  ⟨nofun, nofun, fun _ => trivial, nofun⟩

variable {s : StopTrace} {i c : ℕ} {p : Phase}

/-- What a stop reaches is no later control. -/
theorem Scoped.le_of_reaches (h : s.Scoped) {a : StopAction} {o t : ℕ}
    (hreach : s.Reaches a o t) : t ≤ o := by
  -- a live control was created before now
  have hlive (ht : s.Live t) : t < s.transfers.created := by
    obtain hslot | hexec := ht
    · rw [h.slot t hslot]
      exact Nat.lt_succ_self t
    · exact h.executing t hexec
  unfold Reaches at hreach
  -- the phase of the caller says where its stop came from: a request knows its control, a discard
  -- only that every later one has yet to be created
  split at hreach
  · rename_i i
    have hphase := h.phase i
    split at hreach
    · rename_i c hi
      rw [hi] at hphase
      obtain ⟨horigin, rfl⟩ := hreach
      exact Nat.le_of_eq (Option.some.inj ((hphase.2 rfl).symm.trans horigin))
    · rename_i c hi
      rw [hi] at hphase
      obtain ⟨horigin, rfl⟩ := hreach
      exact Nat.le_of_eq (Option.some.inj ((hphase.2 rfl).symm.trans horigin))
    · rename_i hi
      rw [hi] at hphase
      have hcreated := hphase.1 o hreach.1
      have hlt := hlive hreach.2
      omega
    · rename_i hi
      rw [hi] at hphase
      have hcreated := hphase.1 o hreach.1
      have hlt := hlive (.inl hreach.2)
      omega
    · rename_i c hi
      rw [hi] at hphase
      have hcreated := hphase.2 rfl
      have hlt := hlive (.inl hreach.2)
      omega
    · exact hreach.elim
  · rename_i i
    have hphase := h.phase i
    split at hreach
    · rename_i c hi
      rw [hi] at hphase
      have hcreated := hphase.2 hreach.2.1
      have hlt := hlive hreach.2.2
      omega
    · exact hreach.elim
  · exact hreach.elim

/-! ## Steps -/

/-- A caller goes on, and what it is said to be asked of is set. -/
theorem Scoped.move (h : s.Scoped) {o : Option ℕ} (hp : PhaseOk s.transfers o p)
    (hmay : ∀ c, p.mayDiscard c →
      (s.transfers.callers i).mayDiscard c ∨ s.transfers.created = c + 1)
    (haim : ∀ c, p = .requesting c true .storeDiscard → s.transfers.created = c + 1) :
    Scoped ⟨s.transfers.goto i p, Function.update s.origin i o⟩ := by
  refine ⟨h.slot, h.executing, fun k => ?_, fun j k c hj hk => ?_⟩
  · show PhaseOk s.transfers (Function.update s.origin i o k) ((s.transfers.goto i p).callers k)
    by_cases hki : k = i
    · rw [hki, Function.update_self, Transfers.callers_goto_self]
      exact hp
    · rw [Function.update_of_ne hki, Transfers.callers_goto_of_ne _ hki]
      exact h.phase k
  · replace hj : (s.transfers.goto i p).callers j = _ := hj
    replace hk : ((s.transfers.goto i p).callers k).mayDiscard c := hk
    show s.transfers.created = c + 1
    by_cases hji : j = i
    · rw [hji, Transfers.callers_goto_self] at hj
      exact haim c hj
    rw [Transfers.callers_goto_of_ne _ hji] at hj
    by_cases hki : k = i
    · rw [hki, Transfers.callers_goto_self] at hk
      exact (hmay c hk).elim (h.aimed j i c hj) id
    · rw [Transfers.callers_goto_of_ne _ hki] at hk
      exact h.aimed j k c hj hk

/-- A caller goes on. -/
theorem Scoped.goto (h : s.Scoped) (hp : PhaseOk s.transfers (s.origin i) p)
    (hmay : ∀ c, p.mayDiscard c →
      (s.transfers.callers i).mayDiscard c ∨ s.transfers.created = c + 1)
    (haim : ∀ c, p = .requesting c true .storeDiscard → s.transfers.created = c + 1) :
    Scoped ⟨s.transfers.goto i p, s.origin⟩ := by
  have hmove := h.move hp hmay haim
  rwa [Function.update_eq_self] at hmove

/-- A control is changed, and no run of it comes to know of a discard. -/
theorem Scoped.setControl (h : s.Scoped) {f : TransferControl → TransferControl}
    (hexec : (f (s.transfers.controls c)).executing = true → c < s.transfers.created)
    (hflag : ∀ i pt, s.transfers.callers i = .running c pt →
      pt.stops (f (s.transfers.controls c)).discardPartial = true →
        pt.stops (s.transfers.controls c).discardPartial = true ∨
          s.transfers.created = c + 1) :
    Scoped ⟨s.transfers.setControl c f, s.origin⟩ := by
  have hself := Transfers.controls_setControl_self s.transfers c f
  have hother {d : ℕ} (hd : d ≠ c) :
      (s.transfers.setControl c f).controls d = s.transfers.controls d :=
    Function.update_of_ne hd ..
  refine ⟨h.slot, fun d hd => ?_, fun k => ?_, h.aimed⟩
  · replace hd : ((s.transfers.setControl c f).controls d).executing = true := hd
    by_cases hdc : d = c
    · rw [hdc, hself] at hd
      rw [hdc]
      exact hexec hd
    · rw [hother hdc] at hd
      exact h.executing d hd
  · show PhaseOk (s.transfers.setControl c f) (s.origin k) (s.transfers.callers k)
    have hphase := h.phase k
    cases hk : s.transfers.callers k with
    | running d pt =>
      rw [hk] at hphase
      refine ⟨hphase.1, fun hstops => ?_⟩
      by_cases hdc : d = c
      · rw [hdc] at hk hphase hstops ⊢
        rw [hself] at hstops
        exact (hflag k pt hk hstops).elim hphase.2 id
      · rw [hother hdc] at hstops
        exact hphase.2 hstops
    | idle => trivial
    | missed => trivial
    | holding d =>
      rw [hk] at hphase
      exact hphase
    | requesting d discard pt =>
      rw [hk] at hphase
      exact hphase
    | discarding pt =>
      rw [hk] at hphase
      exact hphase

/-- A change of what is shown, or of the cancel flag. -/
theorem Scoped.setShown (h : s.Scoped) (c : ℕ) (f : TransferControl → TransferControl)
    (hf : ∀ x, (f x).executing = x.executing ∧ (f x).discardPartial = x.discardPartial) :
    Scoped ⟨s.transfers.setControl c f, s.origin⟩ := by
  refine h.setControl (fun hexec => h.executing c ?_) (fun j qt _ hq => .inl ?_)
  · rw [← (hf _).1]
    exact hexec
  · rw [← (hf _).2]
    exact hq

/-- Emptying the registry's slot. -/
theorem Scoped.unregister (h : s.Scoped) : Scoped ⟨s.transfers.unregister, s.origin⟩ :=
  ⟨nofun, h.executing, h.phase, h.aimed⟩

/-- Something new is registered only when no stop or discard is pending. -/
theorem Scoped.register (h : s.Scoped)
    (hclear : s.transfers.slot = none → ∀ k, ¬ s.Pending k) :
    Scoped ⟨s.transfers.register.2, s.origin⟩ ∧
      s.transfers.register.2.slot = some s.transfers.register.1 ∧
      s.transfers.register.2.callers = s.transfers.callers := by
  unfold Transfers.register
  cases hslot : s.transfers.slot with
  | some c => exact ⟨h, hslot, rfl⟩
  -- a new control is made only where no stop is on its way to a later one, which `hclear` says
  | none =>
    have hnone := hclear hslot
    have hother {d : ℕ} (hd : d < s.transfers.created) :
        Function.update s.transfers.controls s.transfers.created TransferControl.new d =
          s.transfers.controls d := Function.update_of_ne (Nat.ne_of_lt hd) ..
    refine ⟨⟨fun c hc => ?_, fun d hd => ?_, fun k => ?_, fun j k c hj hk => ?_⟩, rfl, rfl⟩
    · exact congrArg (· + 1) (Option.some.inj hc)
    · by_cases hdc : d = s.transfers.created
      · rw [hdc]
        exact Nat.lt_succ_self _
      · replace hd : (Function.update s.transfers.controls s.transfers.created
            TransferControl.new d).executing = true := hd
        rw [Function.update_of_ne hdc] at hd
        exact Nat.lt_succ_of_lt (h.executing d hd)
    -- callers keep their phases, read now with one control more created
    · show PhaseOk _ (s.origin k) (s.transfers.callers k)
      have hphase := h.phase k
      have hpending := hnone k
      unfold Pending at hpending
      cases hk : s.transfers.callers k with
      | running d pt =>
        rw [hk] at hphase hpending
        refine ⟨Nat.lt_succ_of_lt hphase.1, fun hstops => absurd ?_ hpending⟩
        replace hstops : pt.stops (Function.update s.transfers.controls s.transfers.created
          TransferControl.new d).discardPartial = true := hstops
        rwa [hother hphase.1] at hstops
      | idle => trivial
      | missed => trivial
      | holding d =>
        rw [hk] at hphase
        exact Nat.lt_succ_of_lt hphase
      | requesting d discard pt =>
        rw [hk] at hphase
        exact ⟨Nat.lt_succ_of_lt hphase.1, hphase.2⟩
      | discarding pt =>
        rw [hk] at hphase hpending
        refine ⟨fun o ho => absurd ?_ hpending, fun c hc => ?_⟩
        · rw [ho]
          exact nofun
        · exact ⟨Nat.lt_succ_of_lt (hphase.2 c hc).1, (hphase.2 c hc).2⟩
    · have hpending := hnone j
      unfold Pending at hpending
      replace hj : s.transfers.callers j = _ := hj
      rw [hj] at hpending
      exact absurd ⟨k, hk⟩ hpending

/-- A run goes on to a point where it discards only if it did before. -/
theorem Scoped.goOn (h : s.Scoped) {pt pt' : RunPoint}
    (hi : s.transfers.callers i = .running c pt)
    (hstops : pt'.stops (s.transfers.controls c).discardPartial = true →
      pt.stops (s.transfers.controls c).discardPartial = true)
    (hdrop : ∀ discard, pt ≠ .dropGuard discard) :
    Scoped ⟨s.transfers.goto i (.running c pt'), s.origin⟩ := by
  have hphase := h.phase i
  rw [hi] at hphase
  refine h.goto ⟨hphase.1, fun hp => hphase.2 (hstops hp)⟩ (fun d hd => .inl ?_) nofun
  rw [hi]
  exact ⟨hd.1, hdrop⟩

/-- The next step of a run, unless it is to discard. -/
theorem Scoped.advanceRun (h : s.Scoped) {pt : RunPoint}
    (hi : s.transfers.callers i = .running c pt) (hpt : pt ≠ .dropGuard true) :
    Scoped ⟨s.transfers.advanceRun i c pt, s.origin⟩ := by
  cases pt with
  | clearCancel =>
    exact (h.setShown c (·.setCancel false) fun _ => ⟨rfl, rfl⟩).goOn hi nofun nofun
  | clearDiscard =>
    have hset : Scoped ⟨s.transfers.setControl c (·.setDiscard false), s.origin⟩ :=
      h.setControl (h.executing c) fun j qt _ hq => .inl (RunPoint.stops_of_false hq _)
    refine hset.goOn hi (fun hp => ?_) nofun
    rw [Transfers.controls_setControl_self] at hp
    cases hp
  | setQueued => exact (h.setShown c (·.setState .queued) fun _ => ⟨rfl, rfl⟩).goOn hi id nofun
  | waiting => exact h
  | interrupted =>
    refine h.goOn hi (fun hp => ?_) nofun
    show (s.transfers.controls c).discardPartial = true
    split at hp
    · assumption
    · exact hp
  | setConnecting =>
    exact (h.setShown c (·.setState .connecting) fun _ => ⟨rfl, rfl⟩).goOn hi id nofun
  | body => exact h
  | reporting st => exact (h.setShown c (·.setState st) fun _ => ⟨rfl, rfl⟩).goOn hi id nofun
  | finished r =>
    refine (h.setShown c (·.setState (Transfers.finalState r)) fun _ => ⟨rfl, rfl⟩).goOn hi
      (fun hp => ?_) nofun
    cases r with
    | stopped => rfl
    | _ => exact hp
  | unregister => exact h.unregister.goOn hi (fun _ => rfl) nofun
  | loadDiscard =>
    have hphase := h.phase i
    rw [hi] at hphase
    exact h.goto hphase (fun _ hd => absurd rfl (hd.2 _)) nofun
  | dropGuard discard =>
    have hset : Scoped ⟨s.transfers.setControl c (·.setExecuting false), s.origin⟩ :=
      h.setControl nofun fun _ _ _ hq => .inl hq
    cases discard with
    | true => exact absurd rfl hpt
    | false => exact hset.goto trivial (fun _ hd => hd.elim) nofun

/-- A run that is to discard goes on to do so, for its own control. -/
theorem Scoped.dropGuard (h : s.Scoped)
    (hi : s.transfers.callers i = .running c (.dropGuard true)) :
    Scoped ⟨s.transfers.advanceRun i c (.dropGuard true),
      Function.update s.origin i (some c)⟩ := by
  have hphase := h.phase i
  rw [hi] at hphase
  have hset : Scoped ⟨s.transfers.setControl c (·.setExecuting false), s.origin⟩ :=
    h.setControl nofun fun _ _ _ hq => .inl hq
  refine hset.move (p := .discarding .lookup) ⟨fun o ho => ?_, nofun⟩ (fun _ hd => hd.elim) nofun
  rw [← Option.some.inj ho]
  exact hphase.2 rfl

/-- The next step of a pause or stop. -/
theorem Scoped.advanceRequest (h : s.Scoped) {discard : Bool} {pt : RequestPoint}
    (hi : s.transfers.callers i = .requesting c discard pt) :
    Scoped ⟨s.transfers.advanceRequest i c discard pt, s.origin⟩ := by
  have hphase := h.phase i
  rw [hi] at hphase
  cases pt with
  | storeDiscard =>
    have hlatch : Scoped ⟨s.transfers.setControl c (·.setDiscard discard), s.origin⟩ := by
      refine h.setControl (h.executing c) fun j qt hj hq => ?_
      cases discard with
      | false => exact .inl (RunPoint.stops_of_false hq _)
      | true =>
        by_cases hdrop : ∀ discard, qt ≠ .dropGuard discard
        · refine .inr (h.aimed i j c hi ?_)
          rw [hj]
          exact ⟨rfl, hdrop⟩
        · -- this run has asked already
          obtain ⟨discard, hdiscard⟩ := not_forall.mp hdrop
          obtain rfl := not_not.mp hdiscard
          exact .inl hq
    exact hlatch.goto hphase (fun _ hd => hd.elim) nofun
  | storeCancel =>
    exact (h.setShown c (·.setCancel true) fun _ => ⟨rfl, rfl⟩).goto hphase
      (fun _ hd => hd.elim) nofun
  | setState =>
    exact (h.setShown c (·.setState (if discard then .stopped else .paused))
      fun _ => ⟨rfl, rfl⟩).goto trivial (fun _ hd => hd.elim) nofun

/-- Admission. -/
theorem Scoped.tryBegin (h : s.Scoped) (hi : s.transfers.callers i = .holding c) :
    Scoped ⟨s.transfers.tryBegin i c, s.origin⟩ := by
  have hphase := h.phase i
  rw [hi] at hphase
  unfold Transfers.tryBegin
  split
  · exact h.goto trivial (fun _ hd => hd.elim) nofun
  · have hset : Scoped ⟨s.transfers.setControl c (·.setExecuting true), s.origin⟩ :=
      h.setControl (fun _ => hphase) fun _ _ _ hq => .inl hq
    refine hset.goto ⟨hphase, nofun⟩ (fun d hd => .inl ?_) nofun
    show (s.transfers.callers i).mayDiscard d
    rw [hi]
    exact hd.1

/-- A caller that looks the control up for a run, or for a request of it. -/
theorem Scoped.lookup (h : s.Scoped) {found : ℕ → Phase} {missing : Phase} {o : Option ℕ}
    (hfound : ∀ c, s.transfers.slot = some c → PhaseOk s.transfers o (found c) ∧
      (∀ d, (found c).mayDiscard d → d = c) ∧
      ∀ d, found c = .requesting d true .storeDiscard → d = c)
    (hmissing : s.transfers.slot = none →  PhaseOk s.transfers o missing ∧
      (∀ d, ¬ missing.mayDiscard d) ∧ ∀ d, missing ≠ .requesting d true .storeDiscard) :
    Scoped ⟨s.transfers.lookup found missing i, Function.update s.origin i o⟩ := by
  unfold Transfers.lookup
  cases hslot : s.transfers.slot with
  | some c =>
    obtain ⟨hok, hmay, haim⟩ := hfound c hslot
    refine h.move hok (fun d hd => .inr ?_) fun d hd => ?_
    · rw [hmay d hd]
      exact h.slot c hslot
    · rw [haim d hd]
      exact h.slot c hslot
  | none =>
    obtain ⟨hok, hmay, haim⟩ := hmissing hslot
    exact h.move hok (fun d hd => absurd hd (hmay d)) fun d hd => absurd hd (haim d)

/-- The next step of a discard. -/
theorem Scoped.advanceDiscard (h : s.Scoped) {pt : DiscardPoint}
    (hi : s.transfers.callers i = .discarding pt) (hpt : pt ≠ .lookup) :
    Scoped ⟨s.transfers.advanceDiscard i pt, s.origin⟩ := by
  have hphase := h.phase i
  rw [hi] at hphase
  cases pt with
  | lookup => exact absurd rfl hpt
  | checking c =>
    obtain ⟨hlt, horigin⟩ := hphase.2 c rfl
    unfold Transfers.advanceDiscard
    dsimp only
    split
    · refine h.goto ⟨hlt, fun _ => horigin⟩ (fun _ hd => hd.elim) fun d hd => ?_
      rw [← (Phase.requesting.inj hd).1]
      exact hphase.1 c horigin
    · exact h.goto ⟨hphase.1, nofun⟩ (fun _ hd => hd.elim) nofun
  | deleting => exact h.goto ⟨hphase.1, nofun⟩ (fun _ hd => hd.elim) nofun
  | unregister => exact h.unregister.goto trivial (fun _ hd => hd.elim) nofun

/-- The first step of a discard, of the control that is registered unless it is a run's own. -/
theorem Scoped.discardLookup (h : s.Scoped)
    (hi : s.transfers.callers i = .discarding .lookup) :
    Scoped ⟨s.transfers.advanceDiscard i .lookup,
      if s.origin i = none then Function.update s.origin i s.transfers.slot
      else s.origin⟩ := by
  have hphase := h.phase i
  rw [hi] at hphase
  have hkeep {o : Option ℕ} (ho : ∀ d, o = some d → s.transfers.created = d + 1)
      (hslot : ∀ c, s.transfers.slot = some c → o = some c) :
      Scoped ⟨s.transfers.advanceDiscard i .lookup, Function.update s.origin i o⟩ := by
    refine h.lookup (fun c hc => ⟨⟨ho, fun d hd => ?_⟩, fun _ hd => hd.elim, nofun⟩)
      fun _ => ⟨⟨ho, nofun⟩, fun _ => id, nofun⟩
    obtain rfl := DiscardPoint.checking.inj hd
    refine ⟨?_, hslot c hc⟩
    rw [h.slot c hc]
    exact Nat.lt_succ_self c
  split
  · exact hkeep (fun d hd => h.slot d hd) fun c hc => hc
  · rename_i hsome
    obtain ⟨o, ho⟩ := Option.ne_none_iff_exists'.mp hsome
    have hown := hkeep (o := s.origin i) (fun d hd => hphase.1 d hd) fun c hc => by
      have hcreated := (hphase.1 o ho).symm.trans (h.slot c hc)
      rw [ho, Nat.succ.inj hcreated]
    rwa [Function.update_eq_self] at hown

/-- The next step of a caller. -/
theorem Scoped.advance (h : s.Scoped) (hclear : s.Clear (.act (.advance i))) :
    Scoped ⟨s.transfers.advance i, s.origins (.advance i)⟩ := by
  unfold Transfers.advance origins
  dsimp only
  cases hi : s.transfers.callers i with
  | idle => exact h
  | missed =>
    obtain ⟨hreg, hslot, hcallers⟩ := h.register fun hnone => hclear ⟨hi, hnone⟩
    have hcreated := hreg.slot _ hslot
    refine hreg.goto (p := .holding _) ?_ (fun d hd => .inr ?_) nofun
    · show _ < s.transfers.register.2.created
      rw [hcreated]
      exact Nat.lt_succ_self _
    · rw [← show s.transfers.register.1 = d from hd]
      exact hcreated
  | holding c => exact h.tryBegin hi
  | running c pt =>
    by_cases hpt : pt = .dropGuard true
    · rw [hpt] at hi ⊢
      exact h.dropGuard hi
    · have hrun := h.advanceRun hi hpt
      dsimp only
      split
      · rename_i heq
        exact absurd (Phase.running.inj heq).2 hpt
      · rename_i heq
        cases heq
      · exact hrun
  | requesting c discard pt => exact h.advanceRequest hi
  | discarding pt =>
    cases pt with
    | lookup => exact h.discardLookup hi
    | _ => exact h.advanceDiscard hi nofun

/-- Beginning something, when nobody's stop is asked of anything. -/
theorem Scoped.begin (h : s.Scoped) {f : Transfers → Transfers}
    (hf : s.transfers.callers i = .idle → Scoped ⟨f s.transfers, s.origin⟩) :
    Scoped ⟨s.transfers.begin i f, s.origin⟩ := by
  unfold Transfers.begin
  split
  · rename_i hidle
    exact hf hidle
  · exact h

/-- A caller that looks the control up, when its origin does not matter. -/
theorem Scoped.lookupPlain (h : s.Scoped) {found : ℕ → Phase} {missing : Phase}
    (hfound : ∀ c, s.transfers.slot = some c → PhaseOk s.transfers (s.origin i) (found c) ∧
      (∀ d, (found c).mayDiscard d → d = c) ∧
      ∀ d, found c = .requesting d true .storeDiscard → d = c)
    (hmissing : s.transfers.slot = none → PhaseOk s.transfers (s.origin i) missing ∧
      (∀ d, ¬ missing.mayDiscard d) ∧ ∀ d, missing ≠ .requesting d true .storeDiscard) :
    Scoped ⟨s.transfers.lookup found missing i, s.origin⟩ := by
  have hlookup := h.lookup (i := i) hfound hmissing
  rwa [Function.update_eq_self] at hlookup

theorem Scoped.slot_lt (h : s.Scoped) (hslot : s.transfers.slot = some c) :
    c < s.transfers.created := by
  rw [h.slot c hslot]
  exact Nat.lt_succ_self c

/-- What a caller does lets no stop stray, if it is possible and meets the condition. -/
theorem Scoped.act (h : s.Scoped) {a : TransferAction} (hclear : s.Clear (.act a))
    (hpossible : s.possible a = true) : Scoped ⟨s.transfers.step a, s.origins a⟩ := by
  -- a caller that looks for a control to run
  have hholding {missing : Phase} (i : ℕ) (hmissing : PhaseOk s.transfers (s.origin i) missing ∧
      (∀ d, ¬ missing.mayDiscard d) ∧ ∀ d, missing ≠ .requesting d true .storeDiscard) :
      Scoped ⟨s.transfers.lookup .holding missing i, s.origin⟩ :=
    h.lookupPlain (fun c hc => ⟨h.slot_lt hc, fun d hd => hd.symm, by rintro _ ⟨⟩⟩) fun _ => hmissing
  cases a with
  | registerTransfer i =>
    exact h.begin (f := fun s => s.register.2) fun hidle =>
      (h.register fun hnone => hclear ⟨hidle, hnone⟩).1
  | download i => exact h.begin fun _ => hholding i ⟨trivial, fun _ => id, by rintro _ ⟨⟩⟩
  | runDownload i => exact h.begin fun _ => hholding i ⟨trivial, fun _ => id, by rintro _ ⟨⟩⟩
  | pause i =>
    exact h.begin fun _ => h.lookupPlain
      (fun c hc => ⟨⟨h.slot_lt hc, by rintro ⟨⟩⟩, fun _ hd => hd.elim, by rintro _ ⟨⟩⟩)
      fun _ => ⟨trivial, fun _ => id, by rintro _ ⟨⟩⟩
  | stop i =>
    show Scoped ⟨s.transfers.begin i _, _⟩
    unfold Transfers.begin origins
    dsimp only
    split
    · refine h.lookup (fun c hc => ⟨⟨h.slot_lt hc, fun _ => hc⟩, fun _ hd => hd.elim,
        fun d hd => ?_⟩) fun _ => ⟨trivial, fun _ => id, by rintro _ ⟨⟩⟩
      exact (Phase.requesting.inj hd).1.symm
    · exact h
  | discardTransfer i =>
    show Scoped ⟨s.transfers.begin i _, _⟩
    unfold Transfers.begin origins
    dsimp only
    split
    · exact h.move ⟨by rintro _ ⟨⟩, by rintro _ ⟨⟩⟩ (fun _ hd => hd.elim) (by rintro _ ⟨⟩)
    · exact h
  | removeTransfer i =>
    refine h.begin fun _ => ?_
    split
    · exact h.unregister
    · exact h
  | advance i => exact h.advance hclear
  | grant i =>
    show Scoped ⟨s.transfers.step (.grant i), s.origin⟩
    unfold Transfers.step
    dsimp only
    split
    · rename_i c hi
      exact h.goOn hi id (by rintro _ ⟨⟩)
    · exact h
  | interrupt i =>
    show Scoped ⟨s.transfers.step (.interrupt i), s.origin⟩
    unfold Transfers.step
    dsimp only
    split
    · rename_i c hi
      split
      · exact h.goOn hi id (by rintro _ ⟨⟩)
      · exact h
    · exact h
  | report i st =>
    show Scoped ⟨s.transfers.step (.report i st), s.origin⟩
    unfold Transfers.step
    dsimp only
    split
    · rename_i c hi
      split
      · exact h
      · exact h.goOn hi id (by rintro _ ⟨⟩)
    · exact h
  | finish i r =>
    show Scoped ⟨s.transfers.step (.finish i r), s.origin⟩
    unfold Transfers.step
    dsimp only
    split
    · rename_i c hi
      refine h.goOn hi (fun hp => ?_) (by rintro _ ⟨⟩)
      cases r with
      | stopped =>
        unfold possible at hpossible
        dsimp only at hpossible
        rw [hi] at hpossible
        exact hpossible
      | _ => exact hp
    · exact h

/-- **A step that meets the condition lets no stop stray.** -/
theorem Scoped.step (h : s.Scoped) {a : StopAction} (hclear : s.Clear a) : (s.step a).Scoped := by
  cases a with
  | remove => exact h.unregister
  | act a =>
    unfold StopTrace.step
    dsimp only
    split
    · rename_i hpossible
      exact h.act hclear hpossible
    · exact h

end StopTrace

open StopTrace

/-- **A stop stays with its run.** As long as no control is registered while a stop or
discard is not over, no stop or discard cancels, discards the files of, or unregisters a
control that was registered after the one it was asked of. -/
theorem stop_stays_with_its_run {actions : List StopAction}
    (h : Along StopTrace.step StopTrace.Clear actions .start) {a : StopAction} {o t : ℕ}
    (hreach : (actions.foldl StopTrace.step .start).Reaches a o t) : t ≤ o :=
  (Along.invariant (fun _ _ hs ha => hs.step ha) scoped_start h).le_of_reaches hreach

/-- A caller that finds no control runs a download up to its body. -/
def runToBody (i : ℕ) : List StopAction :=
  [.download i, .advance i, .advance i, .advance i, .advance i, .advance i, .grant i,
    .advance i].map .act

/-- A stop is asked for, and carried out up to the point where the request has been made. -/
def stopTransfer (i : ℕ) : List StopAction :=
  [.stop i, .advance i, .advance i, .advance i].map .act

/-- Nobody has asked for a stop when the first download registers its control. -/
theorem clear_runToBody : Along StopTrace.step StopTrace.Clear (runToBody 0) .start := by
  have hfirst : (StopTrace.start.step (.act (.download 0))).transfers.callers =
      Function.update (fun _ => .idle) 0 .missed := rfl
  refine ⟨nofun, fun _ k hpending => ?_, ?_⟩
  · unfold Pending at hpending
    rw [hfirst] at hpending
    by_cases hk : k = 0
    · rw [hk, Function.update_self] at hpending
      exact hpending
    · rw [Function.update_of_ne hk] at hpending
      exact hpending
  · have hrest : Along StopTrace.step (fun s a => ¬ s.Registers a)
        (([.advance 0, .advance 0, .advance 0, .advance 0, .grant 0,
          .advance 0] : List TransferAction).map .act)
        ((StopTrace.start.step (.act (.download 0))).step (.act (.advance 0))) := by
      decide +kernel
    exact hrest.mono fun _ _ hno hyes => absurd hyes hno

/-- A stop of the only download reaches that download. -/
theorem stop_reaches_its_run :
    ((runToBody 0 ++ [StopAction.act (.stop 1)]).foldl StopTrace.step .start).Reaches
      (.act (.advance 1)) 0 0 ∧ 0 ≤ 0 := by
  have hclear : Along StopTrace.step StopTrace.Clear (runToBody 0 ++ [StopAction.act (.stop 1)])
      .start := Along.append_singleton.mpr ⟨clear_runToBody, fun h => h.elim⟩
  have hstop : ((runToBody 0 ++ [StopAction.act (.stop 1)]).foldl StopTrace.step .start).Reaches
      (.act (.advance 1)) 0 0 := ⟨rfl, rfl⟩
  exact ⟨hstop, stop_stays_with_its_run hclear hstop⟩

/-- One download is stopped, and another begins before the end of the first. -/
def overlappedStop : StopTrace :=
  (runToBody 0 ++ stopTransfer 1 ++
    [TransferAction.finish 0 .stopped, .advance 0, .advance 0].map StopAction.act ++
    runToBody 2 ++
    [TransferAction.advance 0, .advance 0, .advance 0, .advance 0].map StopAction.act).foldl
      StopTrace.step .start

/-- **A stop reaches a later run.** The end of a stopped download takes its control out of
the registry; another download of the manifest begins; and the discard that ends the first
one finds the second executing, and cancels it. -/
theorem stop_reaches_later_run :
    overlappedStop.Reaches (.act (.advance 0)) 0 1 ∧
      overlappedStop.transfers.callers 2 = .running 1 .body ∧
      (((overlappedStop.step (.act (.advance 0))).step
        (.act (.advance 0))).transfers.controls 1).cancel = true := by
  have hcaller : overlappedStop.transfers.callers 0 = .requesting 1 true .storeDiscard := by
    decide +kernel
  refine ⟨?_, by decide +kernel, by decide +kernel⟩
  unfold Reaches
  dsimp only
  rw [hcaller]
  exact ⟨by decide +kernel, rfl⟩

end Atlas
