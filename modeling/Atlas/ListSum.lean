import Mathlib.Algebra.Order.Group.Multiset
import Mathlib.Algebra.BigOperators.Group.Multiset.Basic
import Mathlib.Algebra.GroupWithZero.Nat
import Mathlib.Tactic.Abel

/-!
# Shares of a sum

The elements of a list each have a share of a sum. When one element is replaced or
removed, its share is; when one element hands something over to the rest of the world,
the whole and the rest balance (`sum_handover`). Accounting for what several parties hold
between them needs no more than that.
-/

namespace ListSum

/-- Replacing an element of a list replaces its share of a sum. -/
theorem sum_map_set {α M : Type} [AddCommMonoid M] (f : α → M) {l : List α} {i : ℕ} {a : α}
    (h : l[i]? = some a) (b : α) : ((l.set i b).map f).sum + f a = (l.map f).sum + f b := by
  induction l generalizing i with
  | nil => cases h
  | cons x l ih =>
    cases i with
    | zero =>
      obtain rfl : x = a := Option.some.inj h
      rw [List.set_cons_zero, List.map_cons, List.map_cons, List.sum_cons, List.sum_cons]
      abel
    | succ i =>
      rw [List.set_cons_succ, List.map_cons, List.map_cons, List.sum_cons, List.sum_cons,
        add_assoc, ih h, add_assoc]

/-- Removing an element of a list removes its share of a sum. -/
theorem sum_map_eraseIdx {α M : Type} [AddCommMonoid M] (f : α → M) {l : List α} {i : ℕ} {a : α}
    (h : l[i]? = some a) : ((l.eraseIdx i).map f).sum + f a = (l.map f).sum := by
  induction l generalizing i with
  | nil => cases h
  | cons x l ih =>
    cases i with
    | zero =>
      obtain rfl : x = a := Option.some.inj h
      rw [List.eraseIdx_cons_zero, List.map_cons, List.sum_cons, add_comm]
    | succ i =>
      rw [List.eraseIdx_cons_succ, List.map_cons, List.map_cons, List.sum_cons, List.sum_cons,
        add_assoc, ih h]

/-- An element's share of a sum. -/
theorem le_sum_map {α β : Type} (f : α → Multiset β) {l : List α} {i : ℕ} {a : α}
    (h : l[i]? = some a) : f a ≤ (l.map f).sum := by
  rw [← sum_map_eraseIdx f h]
  exact Multiset.le_add_left _ _

/-- What a part gives up or takes, its whole and the rest of the world take or give up. -/
theorem sum_handover {M : Type} [AddCancelCommMonoid M]
    {all all' part part' piece piece' rest rest' : M} (hall : all' + part = all + part')
    (hpart : part' + piece = part + piece') (hrest : rest' + piece' = rest + piece) :
    rest' + all' = rest + all := by
  refine add_right_cancel (b := part + piece + piece') ?_
  calc rest' + all' + (part + piece + piece')
      = (all' + part) + piece + (rest' + piece') := by abel
    _ = all + (part' + piece) + (rest + piece) := by
      rw [hall, hrest]
      abel
    _ = rest + all + (part + piece + piece') := by
      rw [hpart]
      abel

end ListSum
