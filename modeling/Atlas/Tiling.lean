import Mathlib.Algebra.BigOperators.Group.List.Basic
import Mathlib.Algebra.GroupWithZero.Nat
import Mathlib.Data.List.Pairwise
import Mathlib.Data.Nat.Basic
import Mathlib.Data.Nat.Notation
import Mathlib.Order.Monotone.Defs

/-!
# Ranges that tile an interval

A list of ranges tiles the interval from one number to another if each range starts where
the one before it ended, none is empty, and the first and the last end where the interval
does. Then every number of the interval is in exactly one of the ranges
(`mem_iff`, `pairwise`), and what a monotone measure gives to the ranges is what it gives to
the interval (`sum_measure`).

A tiling is mostly made by a loop, which computes with numbers of a machine. `addWithin` and
the like are what such a machine computes, where it does not overflow.
-/

/-- **The ranges tile the interval** from `a` to `b`. A range ends before its second number. -/
def Tiles : ℕ → ℕ → List (ℕ × ℕ) → Prop
  | a, b, [] => a = b
  | a, b, r :: rest => r.1 = a ∧ a < r.2 ∧ Tiles r.2 b rest

namespace Tiles

variable {a b : ℕ} {ranges : List (ℕ × ℕ)}

instance decidable : ∀ (a b : ℕ) (ranges : List (ℕ × ℕ)), Decidable (Tiles a b ranges)
  | a, b, [] => inferInstanceAs (Decidable (a = b))
  | _, b, r :: rest =>
    @instDecidableAnd _ _ _ (@instDecidableAnd _ _ _ (decidable r.2 b rest))

theorem le (h : Tiles a b ranges) : a ≤ b := by
  induction ranges generalizing a with
  | nil => exact Nat.le_of_eq h
  | cons r rest ih => exact Nat.le_trans (Nat.le_of_lt h.2.1) (ih h.2.2)

/-- A range of a tiling is not empty, and within the interval. -/
theorem within (h : Tiles a b ranges) {r : ℕ × ℕ} (hr : r ∈ ranges) :
    a ≤ r.1 ∧ r.1 < r.2 ∧ r.2 ≤ b := by
  induction ranges generalizing a with
  | nil => cases hr
  | cons first rest ih =>
    obtain ⟨rfl, hlt, hrest⟩ := h
    obtain rfl | hr := List.mem_cons.mp hr
    · exact ⟨Nat.le_refl _, hlt, hrest.le⟩
    · obtain ⟨hle, hin⟩ := ih hrest hr
      exact ⟨Nat.le_trans (Nat.le_of_lt hlt) hle, hin⟩

/-- **The ranges are in order and do not overlap.** -/
theorem pairwise (h : Tiles a b ranges) : ranges.Pairwise fun r s => r.2 ≤ s.1 := by
  induction ranges generalizing a with
  | nil => exact List.Pairwise.nil
  | cons first rest ih =>
    exact List.Pairwise.cons (fun r hr => (h.2.2.within hr).1) (ih h.2.2)

/-- **The ranges cover the interval**, and nothing else. -/
theorem mem_iff (h : Tiles a b ranges) (i : ℕ) :
    (∃ r ∈ ranges, r.1 ≤ i ∧ i < r.2) ↔ a ≤ i ∧ i < b := by
  constructor
  · rintro ⟨r, hr, hle, hlt⟩
    obtain ⟨hstart, -, hend⟩ := h.within hr
    exact ⟨Nat.le_trans hstart hle, Nat.lt_of_lt_of_le hlt hend⟩
  · rintro ⟨hle, hlt⟩
    induction ranges generalizing a with
    | nil =>
      have heq : a = b := h
      exact absurd (Nat.lt_of_le_of_lt (heq ▸ hle) hlt) (Nat.lt_irrefl _)
    | cons first rest ih =>
      obtain ⟨hfirst, -, hrest⟩ := h
      by_cases hin : i < first.2
      · exact ⟨first, List.mem_cons_self, hfirst ▸ hle, hin⟩
      · obtain ⟨r, hr, hmem⟩ := ih hrest (Nat.le_of_not_lt hin)
        exact ⟨r, List.mem_cons_of_mem _ hr, hmem⟩

/-- **What a measure gives to the ranges adds up** to what it gives to the interval. -/
theorem sum_measure {f : ℕ → ℕ} (hf : Monotone f) (h : Tiles a b ranges) :
    (ranges.map fun r => f r.2 - f r.1).sum = f b - f a := by
  induction ranges generalizing a with
  | nil =>
    have heq : a = b := h
    rw [heq, Nat.sub_self]
    rfl
  | cons first rest ih =>
    obtain ⟨rfl, hlt, hrest⟩ := h
    rw [List.map_cons, List.sum_cons, ih hrest]
    have hfirst := hf (Nat.le_of_lt hlt)
    have hlast := hf hrest.le
    omega

end Tiles

/-! ## Division that rounds up -/

/-- The quotient, rounded up, and 0 where there is none; any remainder counts as one more. -/
def divCeil (a b : ℕ) : ℕ := a / b + if 0 < a % b then 1 else 0

theorem divCeil_eq {a b : ℕ} (hb : 0 < b) : divCeil a b = (a + (b - 1)) / b := by
  unfold divCeil
  have hlt := Nat.mod_lt a hb
  have hsplit : a + (b - 1) = b * (a / b) + (a % b + (b - 1)) := by
    rw [← Nat.add_assoc, Nat.div_add_mod]
  rw [hsplit, Nat.mul_add_div hb]
  by_cases hmod : 0 < a % b
  · have hone : (a % b + (b - 1)) / b = 1 := by
      refine Nat.div_eq_of_lt_le ?_ ?_ <;> omega
    rw [if_pos hmod, hone]
  · have hzero : (a % b + (b - 1)) / b = 0 := Nat.div_eq_of_lt (by omega)
    rw [if_neg hmod, hzero]

/-- What is left after a full part needs one part less. -/
theorem divCeil_add {a b : ℕ} (hb : 0 < b) : divCeil (a + b) b = divCeil a b + 1 := by
  rw [divCeil_eq hb, divCeil_eq hb, Nat.add_right_comm, Nat.add_div_right _ hb]

theorem divCeil_of_le {a b : ℕ} (ha : 0 < a) (hab : a ≤ b) : divCeil a b = 1 := by
  rw [divCeil_eq (Nat.lt_of_lt_of_le ha hab)]
  refine Nat.div_eq_of_lt_le ?_ ?_ <;> omega

theorem divCeil_pos {a b : ℕ} (ha : 0 < a) (hb : 0 < b) : 0 < divCeil a b := by
  rw [divCeil_eq hb]
  exact Nat.div_pos (by omega) hb

/-! ## Numbers of 64 bits -/

/-- Addition, where it does not overflow 64 bits, as the source's checked one. -/
def addU64 (a b : ℕ) : Option ℕ := if a + b < 2 ^ 64 then some (a + b) else none

/-- Multiplication, where it does not overflow 64 bits, as the source's checked one. -/
def mulU64 (a b : ℕ) : Option ℕ := if a * b < 2 ^ 64 then some (a * b) else none

/-- Subtraction, where it does not underflow, as the source's checked one. -/
def subU64 (a b : ℕ) : Option ℕ := if b ≤ a then some (a - b) else none

theorem addU64_eq {a b : ℕ} (h : a + b < 2 ^ 64) : addU64 a b = some (a + b) := if_pos h

theorem mulU64_eq {a b : ℕ} (h : a * b < 2 ^ 64) : mulU64 a b = some (a * b) := if_pos h

theorem subU64_eq {a b : ℕ} (h : b ≤ a) : subU64 a b = some (a - b) := if_pos h
