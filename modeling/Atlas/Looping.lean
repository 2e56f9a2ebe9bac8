import Mathlib.Logic.Basic
import Mathlib.Data.Nat.Notation

/-!
# Loops that may fault

A run returns a value or faults: it applies an operation where that is not defined, or a loop
uses up the turns that it is given. A loop repeats a step on a state until the step ends it.

What is proved of a run is that it returns (`Run.Returns`), or else exactly when it does not
(`Run.Settles`): a run that settles never uses up its turns. A loop settles if every turn does,
keeps an invariant and makes a measure smaller (`Run.loop_settles`); that it returns is the case
of no fault (`Run.loop_returns`). For a scan, whose every turn finds an item and where to go on
from, the fault is told by the items that it meets (`Run.Meets`).
-/

/-- What goes wrong in a run of the source's code: a panic on a slice, or a loop without end. -/
inductive Fault where
  /-- A slice is out of range, or does not start and end between characters. -/
  | badSlice
  /-- A loop has used up its turns. -/
  | endless
  deriving DecidableEq, Repr

/-- A run, which returns a value or faults; whether it returns is then a theorem and not an
assumption. -/
abbrev Run (α : Type) : Type := Except Fault α

/-- How a turn of a loop ends: with a state for the next one, or with the loop's value. -/
inductive Turn (σ β : Type) where
  /-- The loop goes on from a state. -/
  | more (s : σ)
  /-- The loop is over. -/
  | done (b : β)

/-- What holds of the state that a loop goes on from, and of the result that it ends with. -/
def Turn.Sat {σ β : Type} (more : σ → Prop) (done : β → Prop) : Turn σ β → Prop
  | .more s => more s
  | .done b => done b

namespace Run

variable {α β σ : Type} {x : Run α} {f : α → Run β} {P P' : α → Prop} {Q : β → Prop} {a : α}

/-- The run returns a value with a property; it neither panics nor runs on for ever. -/
def Returns (x : Run α) (P : α → Prop) : Prop := ∃ a, x = .ok a ∧ P a

/-- The run returns a value with a property, or has a bad slice; the latter exactly if `bad`. -/
def Settles (x : Run α) (P : α → Prop) (bad : Prop) : Prop :=
  (Returns x P ∧ ¬ bad) ∨ (x = .error .badSlice ∧ bad)

/-! ## What returns -/

theorem returns_pure (h : P a) : Returns (pure a) P := ⟨a, rfl, h⟩

theorem Returns.mono (h : Returns x P) (hP : ∀ a, P a → P' a) : Returns x P' := by
  obtain ⟨a, hx, ha⟩ := h
  exact ⟨a, hx, hP a ha⟩

/-- **A run that goes on with what another one returns.** -/
theorem Returns.bind (hx : Returns x P) (hf : ∀ a, P a → Returns (f a) Q) :
    Returns (x >>= f) Q := by
  obtain ⟨a, rfl, ha⟩ := hx
  exact hf a ha

/-- A choice returns if each branch does, where it is taken. -/
theorem Returns.ite {c : Prop} [Decidable c] {y : Run α} (hx : c → Returns x P)
    (hy : ¬ c → Returns y P) : Returns (if c then x else y) P := by
  split
  · exact hx ‹c›
  · exact hy ‹¬ c›

theorem Returns.and_ok (h : Returns x P) : Returns x fun a => x = .ok a ∧ P a := by
  obtain ⟨a, hx, ha⟩ := h
  exact ⟨a, hx, hx, ha⟩

theorem Returns.map {g : α → β} (hx : Returns x P) (hg : ∀ a, P a → Q (g a)) :
    Returns (g <$> x) Q := by
  obtain ⟨a, rfl, ha⟩ := hx
  exact ⟨g a, rfl, hg a ha⟩

theorem foldlM_returns {γ : Type} (Inv : β → Prop) {f : β → γ → Run β} {l : List γ} {b : β}
    (hf : ∀ b, ∀ c ∈ l, Inv b → Returns (f b c) Inv) (hb : Inv b) :
    Returns (l.foldlM f b) Inv := by
  induction l generalizing b with
  | nil => exact returns_pure hb
  | cons c l ih =>
    rw [List.foldlM_cons]
    exact (hf b c List.mem_cons_self hb).bind fun b' hb' =>
      ih (fun b d hd => hf b d (List.mem_cons_of_mem c hd)) hb'

theorem mapM_returns {γ : Type} {f : γ → Run α} {l : List γ}
    (hf : ∀ c ∈ l, Returns (f c) fun _ => True) : Returns (l.mapM f) fun _ => True := by
  induction l with
  | nil => exact returns_pure trivial
  | cons c l ih =>
    rw [List.mapM_cons]
    refine (hf c List.mem_cons_self).bind fun a _ => ?_
    exact (ih fun d hd => hf d (List.mem_cons_of_mem c hd)).bind fun _ _ => returns_pure trivial

/-! ## What settles -/

variable {bad bad' : Prop}

theorem Settles.returns (h : Settles x P bad) (hbad : ¬ bad) : Returns x P := by
  obtain ⟨hx, -⟩ | ⟨-, hx⟩ := h
  · exact hx
  · exact absurd hx hbad

/-- What settles returns exactly if nothing is bad. -/
theorem Settles.returns_iff (h : Settles x P bad) : Returns x P ↔ ¬ bad := by
  refine ⟨fun hx hbad => ?_, h.returns⟩
  obtain ⟨-, hgood⟩ | ⟨hfault, -⟩ := h
  · exact hgood hbad
  · obtain ⟨a, ha, -⟩ := hx
    rw [hfault] at ha
    cases ha

theorem Settles.ne_endless (h : Settles x P bad) : x ≠ .error .endless := by
  obtain ⟨⟨a, hx, -⟩, -⟩ | ⟨hx, -⟩ := h
  · rw [hx]
    exact fun h => nomatch h
  · rw [hx]
    exact fun h => nomatch h

theorem Settles.mono (h : Settles x P bad) (hP : ∀ a, P a → P' a) (hbad : bad ↔ bad') :
    Settles x P' bad' := by
  obtain ⟨hx, hgood⟩ | ⟨hx, hfault⟩ := h
  · exact Or.inl ⟨hx.mono hP, fun h => hgood (hbad.mpr h)⟩
  · exact Or.inr ⟨hx, hbad.mp hfault⟩

/-- What settles, before a run that returns. -/
theorem Settles.bind (hx : Settles x P bad) (hf : ∀ a, P a → Returns (f a) Q) :
    Settles (x >>= f) Q bad := by
  obtain ⟨hx, hgood⟩ | ⟨rfl, hfault⟩ := hx
  · exact Or.inl ⟨hx.bind hf, hgood⟩
  · exact Or.inr ⟨rfl, hfault⟩

/-! ## Loops -/

/-- Repeat a step until it ends the loop, for a number of turns. -/
def loop (step : σ → Run (Turn σ β)) : ℕ → σ → Run β
  | 0, _ => .error .endless
  | turns + 1, s => do
    match ← step s with
    | .more s' => loop step turns s'
    | .done b => pure b

section Loop

variable {step : σ → Run (Turn σ β)}

/-- **A loop settles** if each turn of it does: it keeps the invariant, makes the measure smaller
and leaves open whether the state it started from is bad, or it ends the loop. -/
theorem loop_settles (Inv : σ → Prop) (measure : σ → ℕ) (Bad : σ → Prop)
    (hstep : ∀ s, Inv s → (step s = .error .badSlice ∧ Bad s) ∨
      Returns (step s) (Turn.Sat (fun s' => Inv s' ∧ measure s' < measure s ∧ (Bad s ↔ Bad s'))
        fun b => Q b ∧ ¬ Bad s))
    {turns : ℕ} {s : σ} (hs : Inv s) (hturns : measure s < turns) :
    Settles (loop step turns s) Q (Bad s) := by
  induction turns generalizing s with
  | zero => exact absurd hturns (Nat.not_lt_zero _)
  | succ turns ih =>
    obtain ⟨hfault, hbad⟩ | ⟨turn, hturn, hsat⟩ := hstep s hs
    · refine Or.inr ⟨?_, hbad⟩
      rw [loop, hfault]
      rfl
    · rw [loop, hturn]
      cases turn with
      | more s' =>
        obtain ⟨hs', hlt, hiff⟩ := hsat
        exact (ih hs' (Nat.lt_of_lt_of_le hlt (Nat.le_of_lt_succ hturns))).mono
          (fun _ h => h) hiff.symm
      | done b => exact Or.inl ⟨⟨b, rfl, hsat.1⟩, hsat.2⟩

/-- **A loop returns** if each turn of it does, keeps the invariant and makes the measure
smaller. -/
theorem loop_returns (Inv : σ → Prop) (measure : σ → ℕ)
    (hstep : ∀ s, Inv s →
      Returns (step s) (Turn.Sat (fun s' => Inv s' ∧ measure s' < measure s) Q))
    {turns : ℕ} {s : σ} (hs : Inv s) (hturns : measure s < turns) :
    Returns (loop step turns s) Q := by
  refine (loop_settles Inv measure (fun _ => False) (fun s hs => Or.inr ?_) hs hturns).returns id
  refine (hstep s hs).mono fun turn hturn => ?_
  cases turn with
  | more s' => exact ⟨hturn.1, hturn.2, Iff.rfl⟩
  | done b => exact ⟨hturn, id⟩

end Loop

/-! ## Scans -/

section Scan

variable {next : σ → Run (Option (α × σ))} {i j : σ} {b : α}

/-- An item that a scan meets, now or after it has gone on past others. -/
inductive Meets (next : σ → Run (Option (α × σ))) : σ → α → Prop
  | here {i j : σ} {a : α} (h : next i = .ok (some (a, j))) : Meets next i a
  | later {i j : σ} {a b : α} (h : next i = .ok (some (b, j))) (hj : Meets next j a) :
    Meets next i a

theorem not_meets_of_none (h : next i = .ok none) : ¬ Meets next i a := by
  rintro (h' | ⟨h', -⟩)
  · rw [h] at h'
    cases h'
  · rw [h] at h'
    cases h'

/-- A scan meets what it finds first, and what it meets from there on. -/
theorem meets_iff (h : next i = .ok (some (b, j))) : Meets next i a ↔ a = b ∨ Meets next j a := by
  constructor
  · rintro (h' | ⟨h', hj⟩)
    · rw [h] at h'
      cases h'
      exact Or.inl rfl
    · rw [h] at h'
      cases h'
      exact Or.inr hj
  · rintro (rfl | hj)
    · exact Meets.here h
    · exact Meets.later h hj

/-- What is not met first is met from there on, or not at all. -/
theorem exists_meets_iff {B : α → Prop} (h : next i = .ok (some (b, j))) (hb : ¬ B b) :
    (∃ a, Meets next i a ∧ B a) ↔ ∃ a, Meets next j a ∧ B a := by
  constructor
  · rintro ⟨a, hmeets, ha⟩
    obtain rfl | hlater := (meets_iff h).mp hmeets
    · exact absurd ha hb
    · exact ⟨a, hlater, ha⟩
  · rintro ⟨a, hmeets, ha⟩
    exact ⟨a, Meets.later h hmeets, ha⟩

end Scan

end Run
