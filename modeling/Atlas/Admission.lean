import Atlas.Transfer

/-!
# A request at admission

A run that is admitted marks its control as executing and then clears the flags that an
earlier pause or stop left behind. A pause or stop that comes after the mark is meant for
this run, and stores the same two flags. Who stores a flag last decides.

`request_kept_iff` says in which orders the request is kept. It is lost in the others: a
stop that is over before the run has cleared both flags leaves no trace
(`stop_lost_at_admission`).
-/

namespace Atlas

namespace Transfers

/-- Callers take their next atomic steps in some order, which says whose turn it is. -/
def interleave (order : List ℕ) (s : Transfers) : Transfers :=
  order.foldl (fun s k => s.advance k) s

/-- An admitted run has cleared both flags, and has not come to its body. -/
def Begun (s : Transfers) (i c : ℕ) : Prop :=
  s.callers i = .running c .setQueued ∨ s.callers i = .running c .waiting

variable {s : Transfers} {i j c : ℕ} {discard : Bool}

/-- A request has stored what it is to store: it stands before its last store, or is through. -/
def Requested (s : Transfers) (j c : ℕ) (discard : Bool) : Prop :=
  s.callers j = .requesting c discard .setState ∨ s.callers j = .idle

/-- The flags are those of the request, as far as it has come. -/
def FlagsKept (s : Transfers) (j c : ℕ) (discard : Bool) : Prop :=
  s.callers j = .requesting c discard .storeDiscard ∨
    (s.callers j = .requesting c discard .storeCancel ∧
      (s.controls c).discardPartial = discard) ∨
    (s.Requested j c discard ∧ (s.controls c).cancel = true ∧
      (s.controls c).discardPartial = discard)

/-- The flags are kept, and the run clears nothing any more that matters to them. -/
structure Kept (s : Transfers) (i j c : ℕ) (discard : Bool) : Prop where
  begun : s.Begun i c ∨ (discard = false ∧ s.callers i = .running c .clearDiscard)
  flags : s.FlagsKept j c discard

/-- The run has yet to clear the flag that a stop stored first, or has done so. -/
structure StopLost (s : Transfers) (i j c : ℕ) : Prop where
  stored : s.callers j = .requesting c true .storeCancel ∨ s.Requested j c true
  cleared : s.callers i = .running c .clearCancel ∨ s.callers i = .running c .clearDiscard ∨
    (s.Begun i c ∧ (s.controls c).discardPartial = false)

/-- The run has yet to clear the flag that a pause stored last, or has done so. -/
structure PauseLost (s : Transfers) (i j c : ℕ) : Prop where
  stored : s.Requested j c false
  cleared : s.callers i = .running c .clearCancel ∨
    ((s.callers i = .running c .clearDiscard ∨ s.Begun i c) ∧ (s.controls c).cancel = false)

/-! ## Single steps -/

@[simp] theorem callers_goto_self (s : Transfers) (i : ℕ) (p : Phase) :
    (s.goto i p).callers i = p := by
  show Function.update s.callers i p i = p
  exact Function.update_self ..

@[simp] theorem callers_goto_of_ne {k : ℕ} (s : Transfers) (h : k ≠ i) (p : Phase) :
    (s.goto i p).callers k = s.callers k := by
  show Function.update s.callers i p k = s.callers k
  exact Function.update_of_ne h ..

@[simp] theorem controls_goto (s : Transfers) (i : ℕ) (p : Phase) :
    (s.goto i p).controls = s.controls := rfl

@[simp] theorem callers_setControl (s : Transfers) (c : ℕ)
    (f : TransferControl → TransferControl) : (s.setControl c f).callers = s.callers := rfl

@[simp] theorem controls_setControl_self (s : Transfers) (c : ℕ)
    (f : TransferControl → TransferControl) :
    (s.setControl c f).controls c = f (s.controls c) := by
  show Function.update s.controls c (f (s.controls c)) c = f (s.controls c)
  exact Function.update_self ..

/-- What the run's next step leaves of its own place and of the flags. -/
theorem Begun.advance (h : s.Begun i c) :
    (s.advance i).Begun i c ∧ (∀ j, j ≠ i → (s.advance i).callers j = s.callers j) ∧
      ((s.advance i).controls c).cancel = (s.controls c).cancel ∧
      ((s.advance i).controls c).discardPartial = (s.controls c).discardPartial := by
  obtain hi | hi := h
  · have hstep : s.advance i =
        (s.setControl c (·.setState .queued)).goto i (.running c .waiting) := by
      simp only [Transfers.advance, hi, advanceRun]
    rw [hstep]
    refine ⟨.inr (callers_goto_self ..), fun j hj => ?_, ?_, ?_⟩
    · simp [hj]
    · simp [TransferControl.setState]
    · simp [TransferControl.setState]
  · have hstep : s.advance i = s := by
      simp only [Transfers.advance, hi, advanceRun]
    rw [hstep]
    exact ⟨.inr hi, fun _ _ => rfl, rfl, rfl⟩

/-- A request that has stored its flags changes them no more. -/
theorem Requested.advance (h : s.Requested j c discard) :
    (s.advance j).Requested j c discard ∧ (∀ i, i ≠ j → (s.advance j).callers i = s.callers i) ∧
      ((s.advance j).controls c).cancel = (s.controls c).cancel ∧
      ((s.advance j).controls c).discardPartial = (s.controls c).discardPartial := by
  obtain hj | hj := h
  · have hstep : s.advance j = (s.setControl c
        (·.setState (if discard then .stopped else .paused))).goto j .idle := by
      simp only [Transfers.advance, hj, advanceRequest]
    rw [hstep]
    refine ⟨.inr (callers_goto_self ..), fun i hi => ?_, ?_, ?_⟩
    · simp [hi]
    · simp [TransferControl.setState]
    · simp [TransferControl.setState]
  · have hstep : s.advance j = s := by
      simp only [Transfers.advance, hj]
    rw [hstep]
    exact ⟨.inr hj, fun _ _ => rfl, rfl, rfl⟩

/-- The run clears the discard flag. -/
theorem advance_clearDiscard (h : s.callers i = .running c .clearDiscard) :
    s.advance i = (s.setControl c (·.setDiscard false)).goto i (.running c .setQueued) := by
  simp only [advance, h, advanceRun]

theorem advance_clearCancel (h : s.callers i = .running c .clearCancel) :
    s.advance i = (s.setControl c (·.setCancel false)).goto i (.running c .clearDiscard) := by
  simp only [advance, h, advanceRun]

theorem advance_storeDiscard (h : s.callers j = .requesting c discard .storeDiscard) :
    s.advance j =
      (s.setControl c (·.setDiscard discard)).goto j (.requesting c discard .storeCancel) := by
  simp only [advance, h, advanceRequest]

theorem advance_storeCancel (h : s.callers j = .requesting c discard .storeCancel) :
    s.advance j =
      (s.setControl c (·.setCancel true)).goto j (.requesting c discard .setState) := by
  simp only [advance, h, advanceRequest]

/-- What the steps of two callers preserve holds after any number of them in any order. -/
theorem interleave_invariant {I : Transfers → Prop} (hi : ∀ s, I s → I (s.advance i))
    (hj : ∀ s, I s → I (s.advance j)) {order : List ℕ} (horder : ∀ k ∈ order, k = i ∨ k = j)
    (hs : I s) : I (s.interleave order) := by
  induction order generalizing s with
  | nil => exact hs
  | cons k order ih =>
    have hrest : ∀ k ∈ order, k = i ∨ k = j := fun k hk => horder k (List.mem_cons_of_mem _ hk)
    obtain rfl | rfl := horder k List.mem_cons_self
    · exact ih hrest (hi s hs)
    · exact ih hrest (hj s hs)

/-! ## A request that is kept -/

/-- What leaves a request where it is, and its flags, keeps it. -/
theorem FlagsKept.frame {s' : Transfers} (h : s.FlagsKept j c discard)
    (hcallers : s'.callers j = s.callers j)
    (hcancel : (s'.controls c).cancel = (s.controls c).cancel)
    (hdiscard : (s'.controls c).discardPartial = (s.controls c).discardPartial) :
    s'.FlagsKept j c discard := by
  unfold FlagsKept Requested
  rw [hcallers, hcancel, hdiscard]
  exact h

theorem Kept.advance_run (h : s.Kept i j c discard) (hij : i ≠ j) :
    (s.advance i).Kept i j c discard := by
  obtain hbegun | ⟨rfl, hi⟩ := h.begun
  · obtain ⟨hbegun', hcallers, hcancel, hpart⟩ := hbegun.advance
    exact ⟨.inl hbegun', h.flags.frame (hcallers j hij.symm) hcancel hpart⟩
  · rw [advance_clearDiscard hi]
    refine ⟨.inl (.inl (callers_goto_self ..)), ?_⟩
    have hj (p : Phase) : ((s.setControl c (·.setDiscard false)).goto i p).callers j =
        s.callers j := callers_goto_of_ne _ hij.symm p
    unfold FlagsKept Requested
    rw [hj, controls_goto, controls_setControl_self]
    obtain hstore | ⟨hstore, -⟩ | ⟨hstored, hcancel, -⟩ := h.flags
    · exact .inl hstore
    · exact .inr (.inl ⟨hstore, rfl⟩)
    · exact .inr (.inr ⟨hstored, hcancel, rfl⟩)

theorem Kept.advance_request (h : s.Kept i j c discard) (hij : i ≠ j) :
    (s.advance j).Kept i j c discard := by
  obtain hstore | ⟨hstore, hpart⟩ | ⟨hstored, hcancel, hpart⟩ := h.flags
  · rw [advance_storeDiscard hstore]
    refine ⟨?_, .inr (.inl ⟨callers_goto_self .., ?_⟩)⟩
    · have hbegun := h.begun
      unfold Begun at hbegun ⊢
      rw [callers_goto_of_ne _ hij]
      exact hbegun
    · rw [controls_goto, controls_setControl_self]
      rfl
  · rw [advance_storeCancel hstore]
    refine ⟨?_, .inr (.inr ⟨.inl (callers_goto_self ..), ?_, ?_⟩)⟩
    · have hbegun := h.begun
      unfold Begun at hbegun ⊢
      rw [callers_goto_of_ne _ hij]
      exact hbegun
    · rw [controls_goto, controls_setControl_self]
      rfl
    · rw [controls_goto, controls_setControl_self]
      exact hpart
  · obtain ⟨hstored', hcallers, hcancel', hpart'⟩ := hstored.advance
    refine ⟨?_, .inr (.inr ⟨hstored', hcancel'.trans hcancel, hpart'.trans hpart⟩)⟩
    have hbegun := h.begun
    unfold Begun at hbegun ⊢
    rw [hcallers i hij]
    exact hbegun

theorem Kept.interleave (h : s.Kept i j c discard) (hij : i ≠ j) {order : List ℕ}
    (horder : ∀ k ∈ order, k = i ∨ k = j) : (s.interleave order).Kept i j c discard :=
  interleave_invariant (I := fun s => s.Kept i j c discard) (fun _ h => h.advance_run hij)
    (fun _ h => h.advance_request hij) horder h

/-- Once both are done, the flags are those of the request. -/
theorem Kept.flags_of_idle (h : s.Kept i j c discard) (hidle : s.callers j = .idle) :
    (s.controls c).cancel = true ∧ (s.controls c).discardPartial = discard := by
  obtain hstore | ⟨hstore, -⟩ | ⟨-, hflags⟩ := h.flags
  · rw [hidle] at hstore
    cases hstore
  · rw [hidle] at hstore
    cases hstore
  · exact hflags

/-! ## A request that is lost -/

theorem StopLost.advance_run (h : s.StopLost i j c) (hij : i ≠ j) :
    (s.advance i).StopLost i j c := by
  have hframe {s' : Transfers} (hj : s'.callers j = s.callers j) :
      s'.callers j = .requesting c true .storeCancel ∨ s'.Requested j c true := by
    unfold Requested
    rw [hj]
    exact h.stored
  obtain hi | hi | ⟨hbegun, hpart⟩ := h.cleared
  · rw [advance_clearCancel hi]
    exact ⟨hframe (callers_goto_of_ne _ hij.symm _), .inr (.inl (callers_goto_self ..))⟩
  · rw [advance_clearDiscard hi]
    refine ⟨hframe (callers_goto_of_ne _ hij.symm _),
      .inr (.inr ⟨.inl (callers_goto_self ..), ?_⟩)⟩
    rw [controls_goto, controls_setControl_self]
    rfl
  · obtain ⟨hbegun', hcallers, -, hpart'⟩ := hbegun.advance
    exact ⟨hframe (hcallers j hij.symm), .inr (.inr ⟨hbegun', hpart'.trans hpart⟩)⟩

theorem StopLost.advance_request (h : s.StopLost i j c) (hij : i ≠ j) :
    (s.advance j).StopLost i j c := by
  have hframe {s' : Transfers} (hi : s'.callers i = s.callers i)
      (hpart : (s'.controls c).discardPartial = (s.controls c).discardPartial) :
      s'.callers i = .running c .clearCancel ∨ s'.callers i = .running c .clearDiscard ∨
        (s'.Begun i c ∧ (s'.controls c).discardPartial = false) := by
    unfold Begun
    rw [hi, hpart]
    exact h.cleared
  obtain hstore | hstored := h.stored
  · rw [advance_storeCancel hstore]
    refine ⟨.inr (.inl (callers_goto_self ..)), hframe (callers_goto_of_ne _ hij _) ?_⟩
    rw [controls_goto, controls_setControl_self]
    rfl
  · obtain ⟨hstored', hcallers, -, hpart⟩ := hstored.advance
    exact ⟨.inr hstored', hframe (hcallers i hij) hpart⟩

theorem StopLost.interleave (h : s.StopLost i j c) (hij : i ≠ j) {order : List ℕ}
    (horder : ∀ k ∈ order, k = i ∨ k = j) : (s.interleave order).StopLost i j c :=
  interleave_invariant (I := fun s => s.StopLost i j c) (fun _ h => h.advance_run hij)
    (fun _ h => h.advance_request hij) horder h

theorem PauseLost.advance_run (h : s.PauseLost i j c) (hij : i ≠ j) :
    (s.advance i).PauseLost i j c := by
  have hframe {s' : Transfers} (hj : s'.callers j = s.callers j) : s'.Requested j c false := by
    unfold Requested
    rw [hj]
    exact h.stored
  obtain hi | ⟨hi | hbegun, hcancel⟩ := h.cleared
  · rw [advance_clearCancel hi]
    refine ⟨hframe (callers_goto_of_ne _ hij.symm _), .inr ⟨.inl (callers_goto_self ..), ?_⟩⟩
    rw [controls_goto, controls_setControl_self]
    rfl
  · rw [advance_clearDiscard hi]
    refine ⟨hframe (callers_goto_of_ne _ hij.symm _),
      .inr ⟨.inr (.inl (callers_goto_self ..)), ?_⟩⟩
    rw [controls_goto, controls_setControl_self]
    exact hcancel
  · obtain ⟨hbegun', hcallers, hcancel', -⟩ := hbegun.advance
    exact ⟨hframe (hcallers j hij.symm), .inr ⟨.inr hbegun', hcancel'.trans hcancel⟩⟩

theorem PauseLost.advance_request (h : s.PauseLost i j c) (hij : i ≠ j) :
    (s.advance j).PauseLost i j c := by
  obtain ⟨hstored, hcallers, hcancel, -⟩ := h.stored.advance
  refine ⟨hstored, ?_⟩
  unfold Begun
  rw [hcallers i hij, hcancel]
  exact h.cleared

theorem PauseLost.interleave (h : s.PauseLost i j c) (hij : i ≠ j) {order : List ℕ}
    (horder : ∀ k ∈ order, k = i ∨ k = j) : (s.interleave order).PauseLost i j c :=
  interleave_invariant (I := fun s => s.PauseLost i j c) (fun _ h => h.advance_run hij)
    (fun _ h => h.advance_request hij) horder h

/-- A stop that is lost is not asked for once the run has begun. -/
theorem StopLost.discardPartial (h : s.StopLost i j c) (hbegun : s.Begun i c) :
    (s.controls c).discardPartial = false := by
  obtain hi | hi | ⟨-, hpart⟩ := h.cleared
  · obtain hbegun | hbegun := hbegun <;> rw [hi] at hbegun <;> cases hbegun
  · obtain hbegun | hbegun := hbegun <;> rw [hi] at hbegun <;> cases hbegun
  · exact hpart

/-- A pause that is lost does not cancel the run once it has begun. -/
theorem PauseLost.cancel (h : s.PauseLost i j c) (hbegun : s.Begun i c) :
    (s.controls c).cancel = false := by
  obtain hi | ⟨-, hcancel⟩ := h.cleared
  · obtain hbegun | hbegun := hbegun <;> rw [hi] at hbegun <;> cases hbegun
  · exact hcancel

end Transfers

open Transfers

variable {s : Transfers} {i j c : ℕ} {order : List ℕ}

/-- The first store of a request leaves the run where it is. -/
theorem callers_advance_storeDiscard (hij : i ≠ j) {discard : Bool}
    (hj : s.callers j = .requesting c discard .storeDiscard) :
    (s.advance j).callers j = .requesting c discard .storeCancel ∧
      (s.advance j).callers i = s.callers i ∧
      ((s.advance j).controls c).discardPartial = discard := by
  rw [advance_storeDiscard hj]
  refine ⟨callers_goto_self .., callers_goto_of_ne _ hij _, ?_⟩
  rw [controls_goto, controls_setControl_self]
  rfl

/-- The first flag that a run clears leaves a request where it is. -/
theorem callers_advance_clearCancel (hij : i ≠ j) (hi : s.callers i = .running c .clearCancel) :
    (s.advance i).callers i = .running c .clearDiscard ∧
      (s.advance i).callers j = s.callers j := by
  rw [advance_clearCancel hi]
  exact ⟨callers_goto_self .., callers_goto_of_ne _ hij.symm _⟩

/-- A stop is kept exactly if the run has cleared both flags before it. -/
theorem stop_kept_iff (hij : i ≠ j) (hi : s.callers i = .running c .clearCancel)
    (hj : s.callers j = .requesting c true .storeDiscard) (horder : ∀ k ∈ order, k = i ∨ k = j)
    (hbegun : (s.interleave order).Begun i c) (hidle : (s.interleave order).callers j = .idle) :
    (((s.interleave order).controls c).cancel = true ∧
      ((s.interleave order).controls c).discardPartial = true) ↔ [i, i] <+: order := by
  have hlost {s : Transfers} (h : s.StopLost i j c) {order : List ℕ}
      (horder : ∀ k ∈ order, k = i ∨ k = j) (hbegun : (s.interleave order).Begun i c) :
      ¬ (((s.interleave order).controls c).cancel = true ∧
        ((s.interleave order).controls c).discardPartial = true) := by
    rw [(h.interleave hij horder).discardPartial hbegun]
    exact fun hflags => by cases hflags.2
  rcases order with _ | ⟨k, order⟩
  · cases hj.symm.trans hidle
  have hrest : ∀ k ∈ order, k = i ∨ k = j := fun k hk => horder k (List.mem_cons_of_mem _ hk)
  obtain rfl | rfl := horder k List.mem_cons_self
  · obtain ⟨hi', hj'⟩ := callers_advance_clearCancel hij hi
    rw [hj] at hj'
    rcases order with _ | ⟨l, order⟩
    · cases hj'.symm.trans hidle
    have hrest' : ∀ m ∈ order, m = k ∨ m = j := fun m hm => hrest m (List.mem_cons_of_mem _ hm)
    obtain rfl | rfl := hrest l List.mem_cons_self
    · -- both flags are cleared
      have hkept : ((s.advance l).advance l).Kept l j c true := by
        rw [advance_clearDiscard hi']
        refine ⟨.inl (.inl (callers_goto_self ..)), .inl ?_⟩
        rw [callers_goto_of_ne _ hij.symm]
        exact hj'
      exact iff_of_true ((hkept.interleave hij hrest').flags_of_idle hidle) ⟨order, rfl⟩
    · -- the stop comes between the two
      obtain ⟨hj'', hi'', -⟩ := callers_advance_storeDiscard hij hj'
      refine iff_of_false (hlost ⟨.inl hj'', .inr (.inl (hi''.trans hi'))⟩ hrest' hbegun) ?_
      intro hpre
      exact hij (List.cons_prefix_cons.mp (List.cons_prefix_cons.mp hpre).2).1
  · -- the stop comes first
    obtain ⟨hj', hi', -⟩ := callers_advance_storeDiscard hij hj
    refine iff_of_false (hlost ⟨.inl hj', .inl (hi'.trans hi)⟩ hrest hbegun) ?_
    intro hpre
    exact hij (List.cons_prefix_cons.mp hpre).1

/-- A pause is kept exactly if the run has cleared its cancel flag before the pause sets it. -/
theorem pause_kept_iff (hij : i ≠ j) (hi : s.callers i = .running c .clearCancel)
    (hj : s.callers j = .requesting c false .storeDiscard) (horder : ∀ k ∈ order, k = i ∨ k = j)
    (hbegun : (s.interleave order).Begun i c) (hidle : (s.interleave order).callers j = .idle) :
    (((s.interleave order).controls c).cancel = true ∧
      ((s.interleave order).controls c).discardPartial = false) ↔ ¬ [j, j] <+: order := by
  rcases order with _ | ⟨k, order⟩
  · cases hj.symm.trans hidle
  have hrest : ∀ k ∈ order, k = i ∨ k = j := fun k hk => horder k (List.mem_cons_of_mem _ hk)
  obtain rfl | rfl := horder k List.mem_cons_self
  · -- the flag is cleared first
    obtain ⟨hi', hj'⟩ := callers_advance_clearCancel hij hi
    have hkept : (s.advance k).Kept k j c false := ⟨.inr ⟨rfl, hi'⟩, .inl (hj'.trans hj)⟩
    refine iff_of_true ((hkept.interleave hij hrest).flags_of_idle hidle) fun hpre => ?_
    exact hij (List.cons_prefix_cons.mp hpre).1.symm
  · obtain ⟨hj', hi', hpart⟩ := callers_advance_storeDiscard hij hj
    rcases order with _ | ⟨l, order⟩
    · cases hj'.symm.trans hidle
    have hrest' : ∀ m ∈ order, m = i ∨ m = k := fun m hm => hrest m (List.mem_cons_of_mem _ hm)
    obtain rfl | rfl := hrest l List.mem_cons_self
    · -- the flag is cleared between the two stores
      have hkept : ((s.advance k).advance l).Kept l k c false := by
        rw [advance_clearCancel (hi'.trans hi)]
        refine ⟨.inr ⟨rfl, callers_goto_self ..⟩, .inr (.inl ⟨?_, ?_⟩)⟩
        · rw [callers_goto_of_ne _ hij.symm]
          exact hj'
        · rw [controls_goto, controls_setControl_self]
          exact hpart
      refine iff_of_true ((hkept.interleave hij hrest').flags_of_idle hidle) fun hpre => ?_
      exact hij (List.cons_prefix_cons.mp (List.cons_prefix_cons.mp hpre).2).1.symm
    · -- the pause is over first
      have hlost : ((s.advance l).advance l).PauseLost i l c := by
        rw [advance_storeCancel hj']
        refine ⟨.inl (callers_goto_self ..), .inl ?_⟩
        rw [callers_goto_of_ne _ hij]
        exact hi'.trans hi
      have hcancel := (hlost.interleave hij hrest').cancel hbegun
      refine iff_of_false (fun hflags => ?_) fun hno => hno ⟨order, rfl⟩
      cases hcancel.symm.trans hflags.1

/-- **When a request at admission is kept.** One run has just been admitted, and one pause
or stop is made of it; their steps come in any order. Once both are done, the flags are
those of the request exactly if the run had cleared both before a stop stored its first,
or the cancel flag before a pause stored it. -/
theorem request_kept_iff {discard : Bool} (hij : i ≠ j)
    (hi : s.callers i = .running c .clearCancel)
    (hj : s.callers j = .requesting c discard .storeDiscard)
    (horder : ∀ k ∈ order, k = i ∨ k = j) (hbegun : (s.interleave order).Begun i c)
    (hidle : (s.interleave order).callers j = .idle) :
    (((s.interleave order).controls c).cancel = true ∧
        ((s.interleave order).controls c).discardPartial = discard) ↔
      if discard then [i, i] <+: order else ¬ [j, j] <+: order := by
  cases discard with
  | true => exact stop_kept_iff hij hi hj horder hbegun hidle
  | false => exact pause_kept_iff hij hi hj horder hbegun hidle

/-- A download is admitted, and a stop of it is about to store its flags. -/
def admittedAndStopped : Transfers :=
  [TransferAction.registerTransfer 0, .runDownload 0, .advance 0, .stop 1].foldl
    Transfers.step .start

/-- A stop that comes after both flags were cleared is kept. -/
theorem stop_kept_after_clearing :
    ((admittedAndStopped.interleave [0, 0, 1, 1, 1, 0]).controls 0).cancel = true ∧
      ((admittedAndStopped.interleave [0, 0, 1, 1, 1, 0]).controls 0).discardPartial = true :=
  (request_kept_iff (i := 0) (j := 1) (by decide) (by decide +kernel) (by decide +kernel)
    (by decide) (.inr (by decide +kernel)) (by decide +kernel)).mpr (by simp)

/-- **A stop is lost at admission**: the run clears both flags after it. -/
theorem stop_lost_at_admission :
    let s := admittedAndStopped.interleave [1, 1, 1, 0, 0]
    (admittedAndStopped.controls 0).executing = true ∧ s.Begun 0 0 ∧ s.callers 1 = .idle ∧
      (s.controls 0).cancel = false ∧ (s.controls 0).discardPartial = false := by
  refine ⟨by decide +kernel, .inl (by decide +kernel), by decide +kernel, by decide +kernel,
    by decide +kernel⟩

end Atlas
