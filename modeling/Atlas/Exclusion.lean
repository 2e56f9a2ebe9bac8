import Atlas.Transfer

/-!
# One run at a time

A control excludes a second run of itself, and the registry holds one control
for a manifest id. So two download bodies of one manifest can only run when the
registry forgot the control of the first while it was in use, and handed out
another. It can: what is asked before it forgets one is the state that is
shown, and a pause shows `Paused` while the body is still running
(`two_bodies_after_pause`).

When no control is taken out of the registry between the moment a caller gets
it for a run and the end of that run's body, at most one body runs
(`at_most_one_body`).
-/

namespace Atlas

open Transition

/-! ## Who uses a control -/

/-- The body is running, or still to come; before this a stop that arrives is still in time. -/
def RunPoint.beforeEnd : RunPoint → Bool
  | .clearCancel | .clearDiscard | .setQueued | .waiting | .setConnecting | .body
  | .reporting _ => true
  | .interrupted | .finished _ | .unregister | .loadDiscard | .dropGuard _ => false

namespace Phase

/-- The control a caller goes by, if it has one in hand. -/
def control : Phase → Option ℕ
  | idle => none
  | missed => none
  | holding c => some c
  | running c _ => some c
  | requesting c _ _ => some c
  | discarding (.checking c) => some c
  | discarding _ => none

/-- The caller's run executes under this control, and will clear its flag at the end. -/
def runs : Phase → ℕ → Prop
  | running c' _, c => c' = c
  | _, _ => False

/-- The caller got this control for a run whose body is not over. -/
def uses : Phase → ℕ → Prop
  | holding c', c => c' = c
  | running c' pt, c => c' = c ∧ pt.beforeEnd = true
  | _, _ => False

/-- The caller executes the download body, the part that must not run twice for one transfer. -/
def inBody : Phase → Bool
  | running _ .body => true
  | running _ (.reporting _) => true
  | _ => false

/-- The caller is about to take the registered control out of the registry. -/
def unregisters : Phase → Bool
  | running _ .unregister => true
  | discarding .unregister => true
  | _ => false

theorem uses_and_runs_of_inBody {p : Phase} (h : p.inBody = true) :
    ∃ c, p.uses c ∧ p.runs c := by
  cases p with
  | running c pt =>
    cases pt with
    | body => exact ⟨c, ⟨rfl, rfl⟩, rfl⟩
    | reporting st => exact ⟨c, ⟨rfl, rfl⟩, rfl⟩
    | _ => cases h
  | _ => cases h

end Phase

namespace Transfers

variable {s : Transfers} {i c : ℕ} {p : Phase}

/-! ## The invariant -/

/-- **What excludes a second body.** A control in use is the registered one, a
run's control is marked as executing, and it is that run's alone. -/
structure Exclusive (s : Transfers) : Prop where
  registered : ∀ i c, (s.callers i).uses c → s.slot = some c
  executing : ∀ i c, (s.callers i).runs c → (s.controls c).executing = true
  sole : ∀ i j c, (s.callers i).runs c → (s.callers j).runs c → i = j
  created : ∀ i c, (s.callers i).control = some c → c < s.created
  slot : ∀ c, s.slot = some c → c < s.created

theorem Exclusive.start : Exclusive start where
  registered _ _ h := h.elim
  executing _ _ h := h.elim
  sole _ _ _ h := h.elim
  created _ _ h := nomatch h
  slot _ h := nomatch h

/-- A caller that goes on under its own control, or takes up the registered one. -/
theorem Exclusive.goto (h : Exclusive s) (huses : ∀ c, p.uses c →
      (s.callers i).uses c ∨ s.slot = some c)
    (hruns : ∀ c, p.runs c → (s.callers i).runs c)
    (hcontrol : ∀ c, p.control = some c →
      (s.callers i).control = some c ∨ s.slot = some c) : Exclusive (s.goto i p) := by
  have hother : ∀ {j}, j ≠ i → (s.goto i p).callers j = s.callers j :=
    fun hj => Function.update_of_ne hj _ _
  have hself : (s.goto i p).callers i = p := Function.update_self _ _ _
  have hruns' : ∀ j c, ((s.goto i p).callers j).runs c → (s.callers j).runs c := by
    intro j c hj
    by_cases hji : j = i
    · subst hji
      rw [hself] at hj
      exact hruns c hj
    · rwa [hother hji] at hj
  refine ⟨fun j c hj => ?_, fun j c hj => h.executing j c (hruns' j c hj),
    fun j k c hj hk => h.sole j k c (hruns' j c hj) (hruns' k c hk), fun j c hj => ?_, h.slot⟩
  · by_cases hji : j = i
    · subst hji
      rw [hself] at hj
      exact (huses c hj).elim (h.registered j c) id
    · rw [hother hji] at hj
      exact h.registered j c hj
  · by_cases hji : j = i
    · subst hji
      rw [hself] at hj
      exact (hcontrol c hj).elim (h.created j c) (h.slot c)
    · rw [hother hji] at hj
      exact h.created j c hj

/-- A change of a control that leaves its execution alone. -/
theorem Exclusive.setControl (h : Exclusive s) {f : TransferControl → TransferControl}
    (hf : ∀ x : TransferControl, (f x).executing = x.executing) :
    Exclusive (s.setControl c f) := by
  refine ⟨h.registered, fun j c' hj => ?_, h.sole, h.created, h.slot⟩
  show (Function.update s.controls c (f (s.controls c)) c').executing = true
  by_cases hc : c' = c
  · subst hc
    rw [Function.update_self, hf]
    exact h.executing j c' hj
  · rw [Function.update_of_ne hc]
    exact h.executing j c' hj

/-- Emptying a slot whose control nobody uses. -/
theorem Exclusive.unregister (h : Exclusive s)
    (hunused : ∀ j c, s.slot = some c → ¬ (s.callers j).uses c) :
    Exclusive s.unregister :=
  ⟨fun j c hj => absurd hj (hunused j c (h.registered j c hj)), h.executing, h.sole, h.created,
    fun _ hslot => nomatch hslot⟩

/-- Registering creates a control nobody has, or none. -/
theorem Exclusive.register (h : Exclusive s) :
    Exclusive s.register.2 ∧ s.register.2.slot = some s.register.1 ∧
      s.register.2.callers = s.callers := by
  unfold Transfers.register
  cases hslot : s.slot with
  | some c => exact ⟨h, hslot, rfl⟩
  | none =>
    refine ⟨⟨fun j c hj => ?_, fun j c hj => ?_, h.sole, fun j c hj => ?_, fun c hc => ?_⟩,
      rfl, rfl⟩
    · have hsome := h.registered j c hj
      rw [hslot] at hsome
      cases hsome
    · have hlt : c < s.created := h.created j c (by
        revert hj
        cases s.callers j <;> intro hj
        case running c' pt => exact congrArg some hj
        all_goals exact hj.elim)
      show (Function.update s.controls s.created TransferControl.new c).executing = true
      rw [Function.update_of_ne (Nat.ne_of_lt hlt)]
      exact h.executing j c hj
    · exact Nat.lt_succ_of_lt (h.created j c hj)
    · rw [← Option.some.inj hc]
      exact Nat.lt_succ_self _

/-- Admission: the swap lets one run in. -/
theorem Exclusive.tryBegin (h : Exclusive s) (hi : s.callers i = .holding c) :
    Exclusive (s.tryBegin i c) := by
  unfold Transfers.tryBegin
  by_cases hexec : (s.controls c).executing = true
  · rw [if_pos hexec]
    exact h.goto (fun _ hu => hu.elim) (fun _ hr => hr.elim) (fun _ hc => nomatch hc)
  · rw [if_neg hexec]
    have hnone : ∀ j, ¬ (s.callers j).runs c := fun j hj => hexec (h.executing j c hj)
    have hother : ∀ {j}, j ≠ i → ((s.setControl c (·.setExecuting true)).goto i
        (.running c .clearCancel)).callers j = s.callers j :=
      fun hj => Function.update_of_ne hj _ _
    have hself : ((s.setControl c (·.setExecuting true)).goto i
        (.running c .clearCancel)).callers i = .running c .clearCancel :=
      Function.update_self _ _ _
    refine ⟨fun j c' hj => ?_, fun j c' hj => ?_, fun j k c' hj hk => ?_, fun j c' hj => ?_,
      h.slot⟩
    · by_cases hji : j = i
      · subst hji
        rw [hself] at hj
        obtain ⟨rfl, -⟩ := hj
        exact h.registered j c (by rw [hi]; rfl)
      · rw [hother hji] at hj
        exact h.registered j c' hj
    · show (Function.update s.controls c ((s.controls c).setExecuting true) c').executing = true
      by_cases hc : c' = c
      · rw [hc, Function.update_self]
        rfl
      · rw [Function.update_of_ne hc]
        by_cases hji : j = i
        · subst hji
          rw [hself] at hj
          exact absurd hj.symm hc
        · rw [hother hji] at hj
          exact h.executing j c' hj
    · -- whoever else ran under the control would have kept it executing
      by_cases hji : j = i <;> by_cases hki : k = i
      · rw [hji, hki]
      · subst hji
        rw [hself] at hj
        rw [hother hki] at hk
        exact absurd (hj ▸ hk) (hnone k)
      · subst hki
        rw [hself] at hk
        rw [hother hji] at hj
        exact absurd (hk ▸ hj) (hnone j)
      · rw [hother hji] at hj
        rw [hother hki] at hk
        exact h.sole j k c' hj hk
    · by_cases hji : j = i
      · subst hji
        rw [hself] at hj
        cases hj
        exact h.created j c (by rw [hi]; rfl)
      · rw [hother hji] at hj
        exact h.created j c' hj

/-- The end of a run's execution. -/
theorem Exclusive.dropGuard (h : Exclusive s) {pt : RunPoint}
    (hi : s.callers i = .running c pt) (huses : ∀ c, ¬ p.uses c) (hruns : ∀ c, ¬ p.runs c)
    (hcontrol : p.control = none) :
    Exclusive ((s.setControl c (·.setExecuting false)).goto i p) := by
  have hother : ∀ {j}, j ≠ i →
      ((s.setControl c (·.setExecuting false)).goto i p).callers j = s.callers j :=
    fun hj => Function.update_of_ne hj _ _
  have hself : ((s.setControl c (·.setExecuting false)).goto i p).callers i = p :=
    Function.update_self _ _ _
  -- the caller that drops its guard runs no longer; whoever runs afterwards ran before
  have hruns' : ∀ j c', (((s.setControl c (·.setExecuting false)).goto i p).callers j).runs c' →
      j ≠ i ∧ (s.callers j).runs c' := by
    intro j c' hj
    by_cases hji : j = i
    · rw [hji, hself] at hj
      exact absurd hj (hruns c')
    · rw [hother hji] at hj
      exact ⟨hji, hj⟩
  refine ⟨fun j c' hj => ?_, fun j c' hj => ?_,
    fun j k c' hj hk => h.sole j k c' (hruns' j c' hj).2 (hruns' k c' hk).2, fun j c' hj => ?_,
    h.slot⟩
  · by_cases hji : j = i
    · rw [hji, hself] at hj
      exact absurd hj (huses c')
    · rw [hother hji] at hj
      exact h.registered j c' hj
  · obtain ⟨hji, hrun⟩ := hruns' j c' hj
    -- another body on the same control would be a second one, against `sole`
    have hc : c' ≠ c := by
      rintro rfl
      exact hji (h.sole j i c' hrun (by rw [hi]; rfl))
    show (Function.update s.controls c ((s.controls c).setExecuting false) c').executing = true
    rw [Function.update_of_ne hc]
    exact h.executing j c' hrun
  · by_cases hji : j = i
    · rw [hji, hself, hcontrol] at hj
      cases hj
    · rw [hother hji] at hj
      exact h.created j c' hj

/-! ## Steps -/

/-- The step takes the registered control out of the registry, so that later callers find none. -/
def unregisters (s : Transfers) : TransferAction → Bool
  | .removeTransfer _ => true
  | .advance i => (s.callers i).unregisters
  | _ => false

/-- The condition on a step, in the state it is taken in: it does not take the
registered control out of the registry while a caller got it for a run whose
body is not over. -/
def KeepsUsed (s : Transfers) (a : TransferAction) : Prop :=
  s.unregisters a = true → ∀ j c, s.slot = some c → ¬ (s.callers j).uses c

theorem KeepsUsed.of_not_unregisters {a : TransferAction} (h : s.unregisters a = false) :
    KeepsUsed s a := fun ha => by
  rw [h] at ha
  cases ha

/-- A caller that goes on to something it has no control for. -/
theorem Exclusive.leave (h : Exclusive s) (huses : ∀ c, ¬ p.uses c)
    (hruns : ∀ c, ¬ p.runs c) (hcontrol : p.control = none) : Exclusive (s.goto i p) :=
  h.goto (fun c hc => absurd hc (huses c)) (fun c hc => absurd hc (hruns c))
    (fun c hc => by rw [hcontrol] at hc; cases hc)

/-- A caller that looks the control up. -/
theorem Exclusive.lookup (h : Exclusive s) {found : ℕ → Phase} {missing : Phase}
    (hfound : ∀ c, (found c).control = some c ∧ (∀ c', (found c).uses c' → c' = c) ∧
      ∀ c', ¬ (found c).runs c')
    (hmissing : missing.control = none ∧ (∀ c, ¬ missing.uses c) ∧ ∀ c, ¬ missing.runs c) :
    Exclusive (s.lookup found missing i) := by
  unfold Transfers.lookup
  cases hslot : s.slot with
  | none => exact h.leave hmissing.2.1 hmissing.2.2 hmissing.1
  | some c =>
    obtain ⟨hcontrol, huses, hruns⟩ := hfound c
    refine h.goto (fun c' hc => Or.inr ?_) (fun c' hc => absurd hc (hruns c'))
      (fun c' hc => Or.inr ?_)
    · rw [huses c' hc]
      exact hslot
    · rw [hcontrol] at hc
      rw [hslot, hc]

/-- A run's next step, when it is not to empty the registry's slot. -/
theorem Exclusive.advanceRun (h : Exclusive s) {pt : RunPoint}
    (hi : s.callers i = .running c pt)
    (hunused : pt = .unregister → ∀ j c, s.slot = some c → ¬ (s.callers j).uses c) :
    Exclusive (s.advanceRun i c pt) := by
  -- a run that goes on is still the same control's
  have hnext : ∀ {s' : Transfers} {pt' : RunPoint}, Exclusive s' → s'.callers = s.callers →
      (pt'.beforeEnd = true → pt.beforeEnd = true) →
        Exclusive (s'.goto i (.running c pt')) := by
    intro s' pt' hs' hcallers hend
    refine hs'.goto (fun c' hc => Or.inl ?_) (fun c' hc => ?_) (fun c' hc => Or.inl ?_)
    · rw [hcallers, hi]
      exact ⟨hc.1, hend hc.2⟩
    · rw [hcallers, hi]
      exact hc
    · rw [hcallers, hi]
      exact hc
  cases pt with
  | clearCancel => exact hnext (h.setControl fun _ => rfl) rfl fun _ => rfl
  | clearDiscard => exact hnext (h.setControl fun _ => rfl) rfl fun _ => rfl
  | setQueued => exact hnext (h.setControl fun _ => rfl) rfl fun _ => rfl
  | setConnecting => exact hnext (h.setControl fun _ => rfl) rfl fun _ => rfl
  | reporting st => exact hnext (h.setControl fun _ => rfl) rfl fun _ => rfl
  | interrupted => exact hnext h rfl nofun
  | finished r =>
    refine hnext (h.setControl fun _ => rfl) rfl fun hend => ?_
    split at hend <;> cases hend
  | unregister => exact hnext (h.unregister (hunused rfl)) rfl nofun
  | loadDiscard => exact hnext h rfl nofun
  | dropGuard discard =>
    refine h.dropGuard hi (fun c' hc => ?_) (fun c' hc => ?_) ?_
    · cases discard <;> exact hc.elim
    · cases discard <;> exact hc.elim
    · cases discard <;> rfl
  | waiting => exact h
  | body => exact h

/-- The next step of a pause or stop request. -/
theorem Exclusive.advanceRequest (h : Exclusive s) {discard : Bool} {pt : RequestPoint}
    (hi : s.callers i = .requesting c discard pt) :
    Exclusive (s.advanceRequest i c discard pt) := by
  have hnext : ∀ {s' : Transfers} {pt' : RequestPoint}, Exclusive s' →
      s'.callers = s.callers → Exclusive (s'.goto i (.requesting c discard pt')) := by
    intro s' pt' hs' hcallers
    refine hs'.goto (fun _ hc => hc.elim) (fun _ hc => hc.elim) (fun c' hc => Or.inl ?_)
    rw [hcallers, hi]
    exact hc
  cases pt with
  | storeDiscard => exact hnext (h.setControl fun _ => rfl) rfl
  | storeCancel => exact hnext (h.setControl fun _ => rfl) rfl
  | setState =>
    have hset : Exclusive (s.setControl c
        (·.setState (if discard then .stopped else .paused))) := h.setControl fun _ => rfl
    exact hset.leave (fun _ => id) (fun _ => id) rfl

/-- The next step of a discard, when it is not to empty a slot in use. -/
theorem Exclusive.advanceDiscard (h : Exclusive s) {pt : DiscardPoint}
    (hi : s.callers i = .discarding pt)
    (hunused : pt = .unregister → ∀ j c, s.slot = some c → ¬ (s.callers j).uses c) :
    Exclusive (s.advanceDiscard i pt) := by
  cases pt with
  | lookup =>
    exact h.lookup (fun _ => ⟨rfl, fun _ hc => hc.elim, fun _ => id⟩)
      ⟨rfl, fun _ => id, fun _ => id⟩
  | checking c' =>
    unfold Transfers.advanceDiscard
    dsimp only
    by_cases hexec : (s.controls c').executing = true
    · rw [if_pos hexec]
      refine h.goto (fun _ hc => hc.elim) (fun _ hc => hc.elim) (fun c'' hc => Or.inl ?_)
      rw [hi]
      exact hc
    · rw [if_neg hexec]
      exact h.leave (fun _ => id) (fun _ => id) rfl
  | deleting => exact h.leave (fun _ => id) (fun _ => id) rfl
  | unregister => exact (h.unregister (hunused rfl)).leave (fun _ => id) (fun _ => id) rfl

/-- **A step that meets the condition keeps runs exclusive.** -/
theorem Exclusive.step (h : Exclusive s) {a : TransferAction} (ha : KeepsUsed s a) :
    Exclusive (s.step a) := by
  have hbegin : ∀ {i : ℕ} {f : Transfers → Transfers}, Exclusive (f s) →
      Exclusive (s.begin i f) := by
    intro i f hf
    unfold Transfers.begin
    split
    · exact hf
    · exact h
  have hrequest : ∀ (i : ℕ) (discard : Bool),
      Exclusive (s.lookup (.requesting · discard .storeDiscard) .idle i) :=
    fun i discard => h.lookup (fun _ => ⟨rfl, fun _ hc => hc.elim, fun _ => id⟩)
      ⟨rfl, fun _ => id, fun _ => id⟩
  have hholding : ∀ {c : ℕ}, (Phase.holding c).control = some c ∧
      (∀ c', (Phase.holding c).uses c' → c' = c) ∧ ∀ c', ¬ (Phase.holding c).runs c' :=
    ⟨rfl, fun _ hc => hc.symm, fun _ => id⟩
  cases a with
  | registerTransfer i => exact hbegin (f := fun s => s.register.2) h.register.1
  | download i => exact hbegin (h.lookup (fun _ => hholding) ⟨rfl, fun _ => id, fun _ => id⟩)
  | runDownload i =>
    exact hbegin (h.lookup (fun _ => hholding) ⟨rfl, fun _ => id, fun _ => id⟩)
  | pause i => exact hbegin (hrequest i false)
  | stop i => exact hbegin (hrequest i true)
  | discardTransfer i => exact hbegin (h.leave (fun _ => id) (fun _ => id) rfl)
  -- the registry entry goes only where no body uses the control; `KeepsUsed` says so of this action
  -- and of the two below that end in a removal
  | removeTransfer i =>
    refine hbegin ?_
    split
    · exact h.unregister (ha rfl)
    · exact h
  | advance i =>
    show Exclusive (s.advance i)
    unfold Transfers.advance
    cases hi : s.callers i with
    | idle => exact h
    | missed =>
      obtain ⟨hreg, hslot, -⟩ := h.register
      refine hreg.goto (fun c hc => Or.inr ?_) (fun _ hc => hc.elim) (fun c hc => Or.inr ?_)
      · rw [← show s.register.1 = c from hc]
        exact hslot
      · rw [hslot, ← hc]
        rfl
    | holding c => exact h.tryBegin hi
    -- a run removes its entry only at its last point, where the hypothesis on the action applies
    | running c pt =>
      refine h.advanceRun hi fun hpt => ha ?_
      show (s.callers i).unregisters = true
      rw [hi, hpt]
      rfl
    | requesting c discard pt => exact h.advanceRequest hi
    | discarding pt =>
      refine h.advanceDiscard hi fun hpt => ha ?_
      show (s.callers i).unregisters = true
      rw [hi, hpt]
      rfl
  | grant i =>
    unfold Transfers.step
    dsimp only
    split
    · rename_i c hi
      refine h.goto (fun c' hc => Or.inl ?_) (fun c' hc => ?_) (fun c' hc => Or.inl ?_) <;>
        rw [hi] <;> exact hc
    · exact h
  | interrupt i =>
    unfold Transfers.step
    dsimp only
    split
    · rename_i c hi
      split
      · refine h.goto (fun c' hc => nomatch hc.2) (fun c' hc => ?_) (fun c' hc => Or.inl ?_) <;>
          rw [hi] <;> exact hc
      · exact h
    · exact h
  | report i st =>
    unfold Transfers.step
    dsimp only
    split
    · rename_i c hi
      split
      · exact h
      · refine h.goto (fun c' hc => Or.inl ?_) (fun c' hc => ?_) (fun c' hc => Or.inl ?_) <;>
          rw [hi] <;> exact hc
    · exact h
  | finish i r =>
    unfold Transfers.step
    dsimp only
    split
    · rename_i c hi
      refine h.goto (fun c' hc => nomatch hc.2) (fun c' hc => ?_) (fun c' hc => Or.inl ?_) <;>
        rw [hi] <;> exact hc
    · exact h

/-- Exclusive runs have at most one body. -/
theorem Exclusive.body_unique (h : Exclusive s) {i j : ℕ} (hi : (s.callers i).inBody = true)
    (hj : (s.callers j).inBody = true) : i = j := by
  obtain ⟨c, huses, hruns⟩ := Phase.uses_and_runs_of_inBody hi
  obtain ⟨c', huses', hruns'⟩ := Phase.uses_and_runs_of_inBody hj
  have hsame := (h.registered i c huses).symm.trans (h.registered j c' huses')
  rw [← Option.some.inj hsame] at hruns'
  exact h.sole i j c hruns hruns'

end Transfers

open Transfers

/-- **At most one download body runs**, in every state reached by steps none of
which takes the registered control out of the registry while it is in use. -/
theorem at_most_one_body {actions : List TransferAction}
    (h : Along Transfers.step KeepsUsed actions .start) {i j : ℕ}
    (hi : ((actions.foldl Transfers.step .start).callers i).inBody = true)
    (hj : ((actions.foldl Transfers.step .start).callers j).inBody = true) : i = j :=
  (h.invariant (fun _ _ hs ha => hs.step ha) Exclusive.start).body_unique hi hj

/-- A caller that finds no control runs a download up to its body. -/
def downloadToBody (i : ℕ) : List TransferAction :=
  [.download i, .advance i, .advance i, .advance i, .advance i, .advance i, .grant i,
    .advance i]

/-- A pause of the transfer: the request and the steps that carry it out. -/
def pauseTransfer (i : ℕ) : List TransferAction :=
  [.pause i, .advance i, .advance i, .advance i]

/-- **Two bodies after a pause**: the pause shows the transfer as paused while
its body runs, removing it is then allowed, and the next download gets a new control. -/
theorem two_bodies_after_pause :
    ∃ s, s = (downloadToBody 0 ++ pauseTransfer 1 ++ [TransferAction.removeTransfer 1] ++
        downloadToBody 1).foldl Transfers.step .start ∧
      (s.callers 0).inBody = true ∧ (s.callers 1).inBody = true :=
  ⟨_, rfl, by decide +kernel, by decide +kernel⟩

/-- While a body runs, a pause and another download do not make a second one. -/
theorem one_body_after_pause :
    ∃ s, s = (downloadToBody 0 ++ pauseTransfer 1 ++ downloadToBody 1).foldl
        Transfers.step .start ∧
      (s.callers 0).inBody = true ∧ ∀ j, (s.callers j).inBody = true → 0 = j := by
  have hrun : Along Transfers.step (fun s a => s.unregisters a = false)
      (downloadToBody 0 ++ pauseTransfer 1 ++ downloadToBody 1) .start := by
    decide +kernel
  have hbody : (((downloadToBody 0 ++ pauseTransfer 1 ++ downloadToBody 1).foldl
      Transfers.step .start).callers 0).inBody = true := by
    decide +kernel
  exact ⟨_, rfl, hbody, fun j hj => at_most_one_body
    (hrun.mono fun _ _ => KeepsUsed.of_not_unregisters) hbody hj⟩

end Atlas
