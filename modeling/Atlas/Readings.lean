import Mathlib.Algebra.BigOperators.Group.Finset.Basic
import Mathlib.Algebra.BigOperators.Group.Finset.Piecewise
import Mathlib.Algebra.Order.BigOperators.Group.Finset
import Mathlib.Algebra.GroupWithZero.Nat
import Mathlib.Data.Nat.Notation

/-!
# Counters that start over

A counter grows, and now and then starts over. It is read from time to time, and what it
has counted in all is the sum, over the periods between two starts, of the last reading of
each. A log is a list of readings, the latest first, and a reading is a period and a count.

Several counters may be read in one round. `totalOf_round` says what the log is worth
after a round, of the periods that are still going on: the sum of the counts of the round,
if no counter was read twice and none is missing that had counted anything.
-/

namespace Readings

variable {P : Type} [DecidableEq P]

/-- The last reading of a period, 0 if there was none, in a log whose newest entry stands first. -/
def last (p : P) : List (P × ℕ) → ℕ
  | [] => 0
  | r :: log => if r.1 = p then r.2 else last p log

/-- The periods that were read at least once. -/
def periods (log : List (P × ℕ)) : Finset P := (log.map Prod.fst).toFinset

/-- What was counted in the periods of a kind, taking of each period only its last reading. -/
def totalOf (K : P → Prop) [DecidablePred K] (log : List (P × ℕ)) : ℕ :=
  ∑ p ∈ (periods log).filter K, last p log

/-- What was counted in all: for each period what it last read. -/
def total (log : List (P × ℕ)) : ℕ := ∑ p ∈ periods log, last p log

@[simp] theorem periods_nil : periods ([] : List (P × ℕ)) = ∅ := rfl

@[simp] theorem total_nil : total ([] : List (P × ℕ)) = 0 := rfl

theorem periods_append (new log : List (P × ℕ)) :
    periods (new ++ log) = periods new ∪ periods log := by
  unfold periods
  rw [List.map_append, List.toFinset_append]

/-- A period that was not read has counted nothing. -/
theorem last_of_notMem {p : P} {log : List (P × ℕ)} (h : p ∉ periods log) :
    last p log = 0 := by
  induction log with
  | nil => rfl
  | cons r log ih =>
    have hne : r.1 ≠ p := fun heq => h (by simp [periods, heq])
    have htail : p ∉ periods log := fun hmem => h (by
      unfold periods at hmem ⊢
      rw [List.map_cons, List.toFinset_cons]
      exact Finset.mem_insert_of_mem hmem)
    rw [last, if_neg hne, ih htail]

/-- **New readings count, and the old ones where there are none.** -/
theorem last_append (p : P) (new log : List (P × ℕ)) :
    last p (new ++ log) = if p ∈ periods new then last p new else last p log := by
  induction new with
  | nil => rfl
  | cons r new ih =>
    rw [List.cons_append, last, last, ih]
    by_cases hr : r.1 = p
    · rw [if_pos hr, if_pos hr, if_pos]
      simp [periods, hr]
    · rw [if_neg hr, if_neg hr]
      refine if_congr ?_ rfl rfl
      simp [periods, Ne.symm hr]

/-- The periods are of a kind or not. -/
theorem totalOf_add_totalOf_not (K : P → Prop) [DecidablePred K] (log : List (P × ℕ)) :
    totalOf K log + totalOf (fun p => ¬ K p) log = total log :=
  Finset.sum_filter_add_sum_filter_not (periods log) K fun p => last p log

/-- Readings of other periods change nothing. -/
theorem totalOf_append_of_not {K : P → Prop} [DecidablePred K] {new : List (P × ℕ)}
    (h : ∀ p ∈ periods new, ¬ K p) (log : List (P × ℕ)) :
    totalOf K (new ++ log) = totalOf K log := by
  unfold totalOf
  rw [periods_append, Finset.filter_union, Finset.filter_false_of_mem h, Finset.empty_union]
  refine Finset.sum_congr rfl fun p hp => ?_
  rw [last_append, if_neg fun hmem => h p hmem (Finset.mem_filter.mp hp).2]

/-- Where no period's count goes back, neither does the total. -/
theorem total_le_append {new log : List (P × ℕ)}
    (h : ∀ p ∈ periods new, last p log ≤ last p new) : total log ≤ total (new ++ log) := by
  have hlast (p : P) : last p log ≤ last p (new ++ log) := by
    rw [last_append]
    split
    · rename_i hp
      exact h p hp
    · exact Nat.le_refl _
  calc total log ≤ ∑ p ∈ periods log, last p (new ++ log) :=
        Finset.sum_le_sum fun p _ => hlast p
    _ ≤ total (new ++ log) := by
      refine Finset.sum_le_sum_of_subset ?_
      rw [periods_append]
      exact Finset.subset_union_right

/-! ## Rounds -/

section Round

variable {ι : Type} (period : ι → P) (count : ι → ℕ)

/-- Some counters are read in one round, each with its period and its count. -/
def round (l : List ι) : List (P × ℕ) := l.map fun i => (period i, count i)

variable {period count}

theorem mem_periods_round {l : List ι} {p : P} :
    p ∈ periods (round period count l) ↔ ∃ i ∈ l, period i = p := by
  unfold periods round
  rw [List.mem_toFinset, List.map_map]
  exact List.mem_map

/-- What is read in a round is the count. -/
theorem last_round {l : List ι} (hinj : ∀ i ∈ l, ∀ j ∈ l, period i = period j → i = j)
    {i : ι} (hi : i ∈ l) : last (period i) (round period count l) = count i := by
  induction l with
  | nil => cases hi
  | cons j l ih =>
    show (if period j = period i then count j else last (period i) (round period count l)) = _
    by_cases heq : period j = period i
    · rw [if_pos heq, hinj j List.mem_cons_self i hi heq]
    · rw [if_neg heq]
      have hmem : i ∈ l := (List.mem_cons.mp hi).resolve_left fun h => heq (h ▸ rfl)
      exact ih (fun a ha b hb => hinj a (List.mem_cons_of_mem _ ha) b
        (List.mem_cons_of_mem _ hb)) hmem

variable [DecidableEq ι]

/-- A list in which only zeros come twice has the sum of its elements. -/
theorem sum_map_eq_sum_toFinset {l : List ι} (h : ∀ i ∈ l, 1 < l.count i → count i = 0) :
    (l.map count).sum = ∑ i ∈ l.toFinset, count i := by
  induction l with
  | nil => rfl
  | cons j l ih =>
    have htail : ∀ i ∈ l, 1 < l.count i → count i = 0 := fun i hi htwice =>
      h i (List.mem_cons_of_mem _ hi)
        (Nat.lt_of_lt_of_le htwice ((List.sublist_cons_self j l).count_le i))
    rw [List.map_cons, List.sum_cons, ih htail, List.toFinset_cons]
    by_cases hj : j ∈ l
    · have hzero : count j = 0 := by
        refine h j List.mem_cons_self ?_
        rw [List.count_cons_self]
        exact Nat.succ_lt_succ (List.count_pos_iff.mpr hj)
      rw [Finset.insert_eq_of_mem (List.mem_toFinset.mpr hj), hzero, Nat.zero_add]
    · rw [Finset.sum_insert fun hmem => hj (List.mem_toFinset.mp hmem)]

/-- **After a round the periods that go on have counted what was read in it**, if only
counters at 0 were read twice, and each that had counted something was read. -/
theorem totalOf_round {K : P → Prop} [DecidablePred K] {l : List ι} {log : List (P × ℕ)}
    (hinj : ∀ i ∈ l, ∀ j ∈ l, period i = period j → i = j) (hK : ∀ i ∈ l, K (period i))
    (hkept : ∀ p ∈ periods log, K p → last p log = 0 ∨ ∃ i ∈ l, period i = p)
    (honce : ∀ i ∈ l, 1 < l.count i → count i = 0) :
    totalOf K (round period count l ++ log) = (l.map count).sum := by
  have hlast : ∀ i ∈ l, last (period i) (round period count l ++ log) = count i := by
    intro i hi
    rw [last_append, if_pos (mem_periods_round.mpr ⟨i, hi, rfl⟩), last_round hinj hi]
  have himage : ∑ p ∈ l.toFinset.image period, last p (round period count l ++ log) =
      ∑ i ∈ l.toFinset, count i := by
    rw [Finset.sum_image fun i hi j hj => hinj i (List.mem_toFinset.mp hi) j
      (List.mem_toFinset.mp hj)]
    exact Finset.sum_congr rfl fun i hi => hlast i (List.mem_toFinset.mp hi)
  rw [sum_map_eq_sum_toFinset honce, ← himage]
  unfold totalOf
  symm
  refine Finset.sum_subset (fun p hp => ?_) fun p hp hnew => ?_
  · obtain ⟨i, hi, rfl⟩ := Finset.mem_image.mp hp
    have hmem := List.mem_toFinset.mp hi
    refine Finset.mem_filter.mpr ⟨?_, hK i hmem⟩
    rw [periods_append]
    exact Finset.mem_union_left _ (mem_periods_round.mpr ⟨i, hmem, rfl⟩)
  · -- a period that goes on and was not read in the round
    obtain ⟨hp, hKp⟩ := Finset.mem_filter.mp hp
    have hround : p ∉ periods (round period count l) := fun hmem => by
      obtain ⟨i, hi, rfl⟩ := mem_periods_round.mp hmem
      exact hnew (Finset.mem_image_of_mem _ (List.mem_toFinset.mpr hi))
    rw [last_append, if_neg hround]
    rw [periods_append] at hp
    refine (hkept p ((Finset.mem_union.mp hp).resolve_left hround) hKp).resolve_right ?_
    exact fun hex => hround (mem_periods_round.mpr hex)

end Round

end Readings
