import Mathlib.Data.List.Sort
import Mathlib.Order.Basic

/-!
# Stable rankings

A list is ranked by a key when it is sorted so that larger keys come first and equal keys
keep their order. `ranked_filter` says the latter for all the items of a key at once, and
`ranked_pairwise_iff` says when a ranking respects an order that is coarser or just another
one: two items that stand the other way in that order must be told apart by the key.
-/

namespace Ranking

variable {α κ τ : Type} [LinearOrder κ] [LinearOrder τ] (key : α → κ)

/-- Larger keys first; equal keys keep their order, as a stable sort does. -/
def ranked (l : List α) : List α := l.insertionSort fun a b => decide (key b ≤ key a) = true

variable {key} {l : List α}

/-- Of two items of a list one comes first. -/
theorem pair_sublist {a b : α} (ha : a ∈ l) (hb : b ∈ l) (hne : a ≠ b) :
    [a, b].Sublist l ∨ [b, a].Sublist l := by
  induction l with
  | nil => cases ha
  | cons x rest ih =>
    obtain rfl | ha' := List.mem_cons.mp ha
    · have hb' : b ∈ rest := (List.mem_cons.mp hb).resolve_left hne.symm
      exact Or.inl ((List.singleton_sublist.mpr hb').cons_cons _)
    · obtain rfl | hb' := List.mem_cons.mp hb
      · exact Or.inr ((List.singleton_sublist.mpr ha').cons_cons _)
      · exact (ih ha' hb').imp (List.Sublist.cons _) (List.Sublist.cons _)

theorem perm_ranked : (ranked key l).Perm l := List.perm_insertionSort _ _

/-- **A ranking is sorted by its key.** -/
theorem pairwise_ranked : (ranked key l).Pairwise fun a b => key b ≤ key a := by
  have htotal : Std.Total fun a b : α => decide (key b ≤ key a) = true :=
    ⟨fun a b => (le_total (key b) (key a)).imp decide_eq_true decide_eq_true⟩
  have htrans : IsTrans α fun a b => decide (key b ≤ key a) = true :=
    ⟨fun _ _ _ hab hbc => decide_eq_true
      (le_trans (of_decide_eq_true hbc) (of_decide_eq_true hab))⟩
  exact (List.pairwise_insertionSort (fun a b : α => decide (key b ≤ key a) = true) l).imp
    of_decide_eq_true

/-- What was in order of the key stays in its order. -/
theorem sublist_ranked {c : List α} (hsorted : c.Pairwise fun a b => key b ≤ key a)
    (hc : c.Sublist l) : c.Sublist (ranked key l) :=
  List.sublist_insertionSort (hsorted.imp decide_eq_true) hc

/-- **Items of one key keep their order.** -/
theorem ranked_filter (k : κ) :
    (ranked key l).filter (fun a => key a = k) = l.filter fun a => key a = k := by
  have hsorted : (l.filter fun a => key a = k).Pairwise fun a b => key b ≤ key a := by
    refine List.pairwise_of_forall_mem_list fun a ha b hb => ?_
    rw [of_decide_eq_true (List.mem_filter.mp ha).2, of_decide_eq_true (List.mem_filter.mp hb).2]
  have hsub := (sublist_ranked hsorted List.filter_sublist).filter fun a => decide (key a = k)
  rw [List.filter_filter] at hsub
  simp only [Bool.and_self] at hsub
  exact (hsub.eq_of_length (perm_ranked.filter _).length_eq.symm).symm

/-- **A ranking respects another order** exactly if the key puts any two items the way that
order does: strictly, if they come in the wrong order. -/
theorem ranked_pairwise_iff {tier : α → τ} :
    (ranked key l).Pairwise (fun a b => tier b ≤ tier a) ↔
      l.Pairwise fun a b =>
        (tier b < tier a → key b ≤ key a) ∧ (tier a < tier b → key a < key b) := by
  constructor
  · intro h
    rw [List.pairwise_iff_forall_sublist]
    intro a b hab
    rw [List.pairwise_iff_forall_sublist] at h
    constructor
    · intro htier
      by_contra hkey
      -- the second item is ranked before the first one
      have ha : a ∈ ranked key l := perm_ranked.symm.subset (hab.subset List.mem_cons_self)
      have hb : b ∈ ranked key l := perm_ranked.symm.subset
        (hab.subset (List.mem_cons_of_mem _ List.mem_cons_self))
      have hne : a ≠ b := fun heq => hkey (heq ▸ le_rfl)
      obtain hsub | hsub := pair_sublist ha hb hne
      · exact hkey (List.pairwise_iff_forall_sublist.mp pairwise_ranked hsub)
      · exact absurd (h hsub) (not_le_of_gt htier)
    · intro htier
      by_contra hkey
      have hsub : [a, b].Sublist (ranked key l) :=
        sublist_ranked (List.pairwise_pair.mpr (le_of_not_gt hkey)) hab
      exact absurd (h hsub) (not_le_of_gt htier)
  · intro h
    rw [List.pairwise_iff_forall_sublist]
    intro a b hab
    by_contra htier
    have htier' : tier a < tier b := lt_of_not_ge htier
    have hkey : key b ≤ key a := List.pairwise_iff_forall_sublist.mp pairwise_ranked hab
    have hne : a ≠ b := fun heq => htier (heq ▸ le_rfl)
    rw [List.pairwise_iff_forall_sublist] at h
    have ha : a ∈ l := perm_ranked.subset (hab.subset List.mem_cons_self)
    have hb : b ∈ l := perm_ranked.subset
      (hab.subset (List.mem_cons_of_mem _ List.mem_cons_self))
    obtain hsub | hsub := pair_sublist ha hb hne
    · exact absurd ((h hsub).2 htier') (not_lt_of_ge hkey)
    · -- the keys are equal, so that the order of the list is kept
      have hequal : key b = key a := le_antisymm hkey ((h hsub).1 htier')
      have hfiltered := hab.filter fun x => decide (key x = key a)
      rw [ranked_filter, List.filter_cons_of_pos (by simp),
        List.filter_cons_of_pos (by simp [hequal])] at hfiltered
      have hback : [a, b].Sublist l := hfiltered.trans List.filter_sublist
      exact absurd ((h hback).2 htier') (not_lt_of_ge hkey)

end Ranking
