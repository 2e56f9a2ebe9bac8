import Mathlib.Data.List.Basic

/-!
# Runs of a step function

A system that takes steps is a function from a state and what happens to the
next state; a run is a list of things that happen. `Along` says that every
step of a run meets a condition on the state it is taken in, and
`Along.invariant` is the induction everything about runs goes by: what every
step that meets the condition preserves holds at the end of every run whose
steps all do.
-/

namespace Transition

variable {σ α : Type} {step : σ → α → σ}

/-- Every step of a run meets `C` in the state it is taken in. -/
def Along (step : σ → α → σ) (C : σ → α → Prop) : List α → σ → Prop
  | [], _ => True
  | a :: as, s => C s a ∧ Along step C as (step s a)

namespace Along

variable {C C' : σ → α → Prop}

/-- A condition that can be decided step by step can be decided of a run. -/
instance decidable [∀ s a, Decidable (C s a)] :
    ∀ (as : List α) (s : σ), Decidable (Along step C as s)
  | [], _ => .isTrue trivial
  | a :: as, s => @instDecidableAnd _ _ _ (decidable as (step s a))

/-- **The induction over runs.** -/
theorem invariant {I : σ → Prop} (hstep : ∀ s a, I s → C s a → I (step s a))
    {as : List α} {s : σ} (hs : I s) (h : Along step C as s) : I (as.foldl step s) := by
  induction as generalizing s with
  | nil => exact hs
  | cons a as ih => exact ih (hstep s a hs h.1) h.2

/-- A run and what follows it. -/
theorem append {as bs : List α} {s : σ} :
    Along step C (as ++ bs) s ↔ Along step C as s ∧ Along step C bs (as.foldl step s) := by
  induction as generalizing s with
  | nil => exact (iff_of_eq (true_and _)).symm
  | cons a as ih =>
    show C s a ∧ Along step C (as ++ bs) (step s a) ↔ _
    rw [ih]
    exact and_assoc.symm

/-- A run and one more step. -/
theorem append_singleton {as : List α} {a : α} {s : σ} :
    Along step C (as ++ [a]) s ↔ Along step C as s ∧ C (as.foldl step s) a := by
  rw [append]
  exact and_congr_right fun _ => iff_of_eq (and_true _)

theorem mono (h : ∀ s a, C s a → C' s a) {as : List α} {s : σ} (hC : Along step C as s) :
    Along step C' as s := by
  induction as generalizing s with
  | nil => trivial
  | cons a as ih => exact ⟨h s a hC.1, ih hC.2⟩

end Along

/-! ## Logs -/

/-- Every entry of a log stands in `G` to what precedes it. -/
def Throughout (G : List α → α → Prop) (log : List α) : Prop :=
  ∀ i e, log[i]? = some e → G (log.take i) e

theorem Throughout.nil (G : List α → α → Prop) : Throughout G [] := by
  intro i e h
  rw [List.getElem?_nil] at h
  cases h

/-- **A log grows by one entry.** -/
theorem Throughout.append_singleton {G : List α → α → Prop} {log : List α} {a : α}
    (h : Throughout G log) (ha : G log a) : Throughout G (log ++ [a]) := by
  intro i e he
  by_cases hi : i < log.length
  · rw [List.getElem?_append_left hi] at he
    rw [List.take_append_of_le_length (Nat.le_of_lt hi)]
    exact h i e he
  · have hle : log.length ≤ i := Nat.le_of_not_lt hi
    rw [List.getElem?_append_right hle, List.getElem?_singleton] at he
    split at he
    · rename_i hzero
      cases he
      have hlen : i = log.length := Nat.le_antisymm (Nat.le_of_sub_eq_zero hzero) hle
      rw [hlen, List.take_left]
      exact ha
    · cases he

end Transition
