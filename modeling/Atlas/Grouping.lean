import Mathlib.Data.List.Perm.Basic
import Mathlib.Logic.Function.Basic

/-!
# Grouping by a key

A list is grouped by a key in one pass: a table has a list for each key, and the keys are
noted in the order they first appear. Then the table is emptied in that order.

Every group is what has its key, in the order of the list (`Grouping.mem_grouped`), and
together the groups are the list (`Grouping.perm_grouped`).
-/

namespace Grouping

variable {α κ : Type} [DecidableEq κ] (key : α → κ)

/-- A table of groups, and its keys in the order they appeared. -/
structure Groups (α κ : Type) where
  order : List κ
  groups : κ → Option (List α)

/-- Put an item in the group of its key, which comes last in the order of groups when its
key has not been seen before. -/
def add (g : Groups α κ) (a : α) : Groups α κ where
  order := if (g.groups (key a)).isSome then g.order else g.order ++ [key a]
  groups := Function.update g.groups (key a) (some ((g.groups (key a)).getD [] ++ [a]))

/-- The table of a list, its items added one after another to an empty one. -/
def table (l : List α) : Groups α κ := l.foldl (add key) ⟨[], fun _ => none⟩

/-- Take the groups of some keys out of a table, in the order of the keys, so that a key
that is asked for twice is found only once. -/
def drain (groups : κ → Option (List α)) : List κ → List (κ × List α)
  | [] => []
  | k :: ks =>
    match groups k with
    | some c => (k, c) :: drain (Function.update groups k none) ks
    | none => drain groups ks

/-- The groups of a list, each with its key, in the order in which the keys were first seen. -/
def grouped (l : List α) : List (κ × List α) := drain (table key l).groups (table key l).order

variable {key}

/-- The items of a list with a key, in the list's own order. -/
def having (key : α → κ) (l : List α) (k : κ) : List α := l.filter fun a => key a = k

theorem mem_having {l : List α} {k : κ} {a : α} : a ∈ having key l k ↔ a ∈ l ∧ key a = k := by
  unfold having
  rw [List.mem_filter, decide_eq_true_iff]

theorem having_append (l : List α) (a : α) (k : κ) :
    having key (l ++ [a]) k = having key l k ++ if key a = k then [a] else [] := by
  unfold having
  rw [List.filter_append, List.filter_cons, List.filter_nil]
  by_cases h : key a = k
  · rw [if_pos (decide_eq_true h), if_pos h]
  · rw [if_neg fun hd => h (of_decide_eq_true hd), if_neg h]

/-! ## The table -/

/-- A table is that of a list: each key has the items of that key, if there are any, and
the keys that have some are noted once. -/
structure Groups.Of (key : α → κ) (g : Groups α κ) (l : List α) : Prop where
  groups : ∀ k, g.groups k = if having key l k = [] then none else some (having key l k)
  nodup : g.order.Nodup
  mem_order : ∀ k, k ∈ g.order ↔ having key l k ≠ []

/-- **Adding an item** to the table of a list is the table of the longer list. -/
theorem Groups.Of.add {g : Groups α κ} {l : List α} (h : g.Of key l) (a : α) :
    (Grouping.add key g a).Of key (l ++ [a]) := by
  have hgot : (g.groups (key a)).getD [] = having key l (key a) := by
    rw [h.groups]
    by_cases hnil : having key l (key a) = []
    · rw [if_pos hnil, hnil]
      rfl
    · rw [if_neg hnil]
      rfl
  have hsome : (g.groups (key a)).isSome = true ↔ key a ∈ g.order := by
    rw [h.groups, h.mem_order]
    by_cases hnil : having key l (key a) = []
    · rw [if_pos hnil]
      exact ⟨fun hfalse => (nomatch hfalse), fun hne => absurd hnil hne⟩
    · rw [if_neg hnil]
      exact ⟨fun _ => hnil, fun _ => rfl⟩
  -- a key enters the order only with its first item
  have horder : ∀ k, k ∈ (Grouping.add key g a).order ↔ k ∈ g.order ∨ k = key a := by
    intro k
    show k ∈ (if (g.groups (key a)).isSome then g.order else g.order ++ [key a]) ↔ _
    by_cases hkey : (g.groups (key a)).isSome = true
    · rw [if_pos hkey]
      exact ⟨Or.inl, fun hor => hor.elim id fun heq => heq ▸ hsome.mp hkey⟩
    · rw [if_neg hkey, List.mem_append, List.mem_singleton]
  constructor
  · intro k
    show Function.update g.groups (key a) _ k = _
    rw [having_append]
    by_cases hk : k = key a
    · rw [hk, Function.update_self, hgot, if_pos rfl, if_neg (List.append_ne_nil_of_right_ne_nil _
        (List.cons_ne_nil a []))]
    · rw [Function.update_of_ne hk, if_neg (Ne.symm hk), List.append_nil, h.groups]
  · show (if (g.groups (key a)).isSome then g.order else g.order ++ [key a]).Nodup
    by_cases hkey : (g.groups (key a)).isSome = true
    · rw [if_pos hkey]
      exact h.nodup
    · rw [if_neg hkey]
      refine List.nodup_append.mpr ⟨h.nodup, List.nodup_cons.mpr
        ⟨List.not_mem_nil, List.nodup_nil⟩, fun k hk k' hk' heq => ?_⟩
      rw [heq, List.mem_singleton.mp hk'] at hk
      exact hkey (hsome.mpr hk)
  · intro k
    rw [horder, h.mem_order, having_append]
    by_cases hk : k = key a
    · rw [if_pos hk.symm]
      exact ⟨fun _ => List.append_ne_nil_of_right_ne_nil _ (List.cons_ne_nil a []),
        fun _ => Or.inr hk⟩
    · rw [if_neg (Ne.symm hk), List.append_nil]
      exact ⟨fun hor => hor.resolve_right hk, Or.inl⟩

theorem of_table (l : List α) : (table key l).Of key l := by
  have hfold : ∀ (rest done : List α) (g : Groups α κ), g.Of key done →
      (rest.foldl (add key) g).Of key (done ++ rest) := by
    intro rest
    induction rest with
    | nil =>
      intro done g h
      rw [List.append_nil]
      exact h
    | cons a rest ih =>
      intro done g h
      rw [List.append_cons]
      exact ih (done ++ [a]) _ (h.add a)
  exact hfold l [] _ ⟨fun _ => rfl, List.nodup_nil, fun k => ⟨fun h => (nomatch h),
    fun h => absurd rfl h⟩⟩

/-! ## The groups -/

/-- Emptying a table takes each group that is there. -/
theorem drain_eq {groups : κ → Option (List α)} {ks : List κ} (hks : ks.Nodup) :
    drain groups ks = ks.filterMap fun k => (groups k).map (Prod.mk k) := by
  induction ks generalizing groups with
  | nil => rfl
  | cons k ks ih =>
    obtain ⟨hnot, hrest⟩ := List.nodup_cons.mp hks
    rw [drain, List.filterMap_cons]
    cases groups k with
    | none => exact ih hrest
    | some c =>
      dsimp only [Option.map_some]
      rw [ih hrest]
      refine congrArg ((k, c) :: ·) (List.filterMap_congr fun k' hk' => ?_)
      have hne : k' ≠ k := fun heq => hnot (heq ▸ hk')
      rw [Function.update_of_ne hne]

/-- The groups are those of the keys in order of their first appearance. -/
theorem grouped_eq (l : List α) :
    grouped key l = (table key l).order.map fun k => (k, having key l k) := by
  have htable := @of_table _ _ _ key l
  unfold grouped
  rw [drain_eq htable.nodup, ← List.filterMap_eq_map]
  refine List.filterMap_congr fun k hk => ?_
  rw [htable.groups, if_neg ((htable.mem_order k).mp hk)]
  rfl

/-- **A group is what has its key**, and there is one for each key. -/
theorem mem_grouped {l : List α} {k : κ} {c : List α} :
    (k, c) ∈ grouped key l ↔ c = having key l k ∧ c ≠ [] := by
  rw [grouped_eq, List.mem_map]
  constructor
  · rintro ⟨k', hk', heq⟩
    cases heq
    exact ⟨rfl, ((of_table l).mem_order k).mp hk'⟩
  · rintro ⟨rfl, hne⟩
    exact ⟨k, ((of_table l).mem_order k).mpr hne, rfl⟩

/-- The groups of distinct keys are what has one of them. -/
theorem perm_flatMap_having (l : List α) {ks : List κ} (hks : ks.Nodup) :
    (ks.flatMap (having key l)).Perm (l.filter fun a => key a ∈ ks) := by
  induction ks with
  | nil =>
    rw [List.flatMap_nil, List.filter_eq_nil_iff.mpr fun a _ h =>
      absurd (of_decide_eq_true h) List.not_mem_nil]
  | cons k ks ih =>
    obtain ⟨hnot, hrest⟩ := List.nodup_cons.mp hks
    rw [List.flatMap_cons]
    refine ((ih hrest).append_left _).trans ?_
    have hfirst : having key l k =
        (l.filter fun a => key a ∈ k :: ks).filter fun a => key a = k := by
      unfold having
      rw [List.filter_filter]
      refine List.filter_congr fun a _ => ?_
      by_cases h : key a = k
      · simp [h]
      · simp [h]
    have hothers : (l.filter fun a => key a ∈ ks) =
        (l.filter fun a => key a ∈ k :: ks).filter fun a => !decide (key a = k) := by
      rw [List.filter_filter]
      refine List.filter_congr fun a _ => ?_
      by_cases h : key a = k
      · simp [h, hnot]
      · simp [h]
    rw [hfirst, hothers]
    exact List.filter_append_perm _ _

/-- **Together the groups are the list.** -/
theorem perm_grouped (l : List α) : ((grouped key l).flatMap Prod.snd).Perm l := by
  have htable := @of_table _ _ _ key l
  rw [grouped_eq, List.flatMap_map]
  refine (perm_flatMap_having l htable.nodup).trans ?_
  rw [List.filter_eq_self.mpr fun a ha => decide_eq_true ?_]
  exact (htable.mem_order (key a)).mpr (List.ne_nil_of_mem (mem_having.mpr ⟨ha, rfl⟩))

end Grouping
