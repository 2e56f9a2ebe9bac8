import Mathlib.Data.List.Basic
import Mathlib.Data.List.Infix

/-!
# Trees of files

A tree of files is a list of places and contents. A place is the list of the
components that lead to it, so what is at or below a place is what its
components are a prefix of, and a directory is a place with files strictly
below it; there is nothing else to a directory.
-/

/-- A tree of files with contents `β` at places with components `α`. -/
abbrev FileTree (α β : Type) : Type := List (List α × β)

namespace FileTree

variable {α β : Type} [DecidableEq α]

/-- The content of the file at a place, if there is one. -/
def contentAt (p : List α) (fs : FileTree α β) : Option β :=
  (fs.find? fun f => f.1 = p).map Prod.snd

/-- There are files below a place, so that the place itself is a directory. -/
def isDir (p : List α) (fs : FileTree α β) : Bool :=
  fs.any fun f => p <+: f.1 ∧ f.1 ≠ p

/-- Take the file at a place away, and leave what is below it. -/
def unlink (p : List α) (fs : FileTree α β) : FileTree α β :=
  fs.filter fun f => f.1 ≠ p

/-- Put a file at a place, instead of the one there is. -/
def write (p : List α) (b : β) (fs : FileTree α β) : FileTree α β :=
  (p, b) :: unlink p fs

/-- Take away some of what is at or below a place, as a removal does that fails on the way. -/
def removeBelow (p : List α) (gone : List α → Bool) (fs : FileTree α β) : FileTree α β :=
  fs.filter fun f => ¬ (p <+: f.1 ∧ gone f.1)

/-- Take away everything at or below a place, as removing a directory tree does. -/
def removeTree (p : List α) (fs : FileTree α β) : FileTree α β :=
  fs.filter fun f => ¬ p <+: f.1

/-- What filtering a tree by place leaves at a place. -/
theorem contentAt_filter (c : List α → Bool) (p : List α) (fs : FileTree α β) :
    contentAt p (fs.filter fun f => c f.1) = if c p then contentAt p fs else none := by
  unfold contentAt
  rw [List.find?_filter]
  by_cases hc : c p = true
  · rw [if_pos hc]
    congr 2
    funext f
    by_cases hf : f.1 = p
    · simp [hf, hc]
    · simp [hf]
  · rw [if_neg hc, Option.map_eq_none_iff, List.find?_eq_none]
    intro f _ hf
    obtain ⟨hcf, hfp⟩ := of_decide_eq_true hf
    exact hc (of_decide_eq_true hfp ▸ hcf)

/-- Filtering a tree by place takes a file away or leaves it. -/
theorem contentAt_filter_or (c : List α → Bool) (p : List α) (fs : FileTree α β) :
    contentAt p (fs.filter fun f => c f.1) = contentAt p fs ∨
      contentAt p (fs.filter fun f => c f.1) = none := by
  rw [contentAt_filter]
  by_cases hc : c p = true
  · exact Or.inl (if_pos hc)
  · exact Or.inr (if_neg hc)

@[simp] theorem contentAt_nil (p : List α) : contentAt p ([] : FileTree α β) = none := rfl

theorem contentAt_unlink_self (p : List α) (fs : FileTree α β) :
    contentAt p (unlink p fs) = none := by
  have h := contentAt_filter (fun q => decide (q ≠ p)) p fs
  rw [if_neg (by simp)] at h
  exact h

theorem contentAt_unlink_of_ne {p q : List α} (h : q ≠ p) (fs : FileTree α β) :
    contentAt q (unlink p fs) = contentAt q fs := by
  have hq := contentAt_filter (fun q => decide (q ≠ p)) q fs
  rw [if_pos (decide_eq_true h)] at hq
  exact hq

theorem contentAt_write_self (p : List α) (b : β) (fs : FileTree α β) :
    contentAt p (write p b fs) = some b := by
  unfold contentAt write
  simp

theorem contentAt_write_of_ne {p q : List α} (h : q ≠ p) (b : β) (fs : FileTree α β) :
    contentAt q (write p b fs) = contentAt q fs := by
  rw [← contentAt_unlink_of_ne h fs]
  unfold contentAt write
  rw [List.find?_cons_of_neg]
  simp [Ne.symm h]

/-- Removing below a place changes nothing elsewhere. -/
theorem contentAt_removeBelow_of_not {p q : List α} (h : ¬ p <+: q) (gone : List α → Bool)
    (fs : FileTree α β) : contentAt q (removeBelow p gone fs) = contentAt q fs := by
  have hq := contentAt_filter (fun q => decide ¬ (p <+: q ∧ gone q)) q fs
  rw [if_pos (decide_eq_true (not_and_of_not_left _ h))] at hq
  exact hq

theorem contentAt_removeTree_of_not {p q : List α} (h : ¬ p <+: q) (fs : FileTree α β) :
    contentAt q (removeTree p fs) = contentAt q fs := by
  have hq := contentAt_filter (fun q => decide ¬ p <+: q) q fs
  rw [if_pos (decide_eq_true h)] at hq
  exact hq

theorem contentAt_removeTree {p q : List α} (h : p <+: q) (fs : FileTree α β) :
    contentAt q (removeTree p fs) = none := by
  have hq := contentAt_filter (fun q => decide ¬ p <+: q) q fs
  rw [if_neg (by simp [h])] at hq
  exact hq

theorem contentAt_unlink_or (p q : List α) (fs : FileTree α β) :
    contentAt q (unlink p fs) = contentAt q fs ∨ contentAt q (unlink p fs) = none :=
  contentAt_filter_or (fun q => decide (q ≠ p)) q fs

theorem contentAt_removeBelow_or (p : List α) (gone : List α → Bool) (q : List α)
    (fs : FileTree α β) : contentAt q (removeBelow p gone fs) = contentAt q fs ∨
      contentAt q (removeBelow p gone fs) = none :=
  contentAt_filter_or (fun q => decide ¬ (p <+: q ∧ gone q)) q fs

theorem contentAt_removeTree_or (p q : List α) (fs : FileTree α β) :
    contentAt q (removeTree p fs) = contentAt q fs ∨ contentAt q (removeTree p fs) = none :=
  contentAt_filter_or (fun q => decide ¬ p <+: q) q fs

/-- Where nothing is below, taking the file away takes the tree away. -/
theorem unlink_eq_removeTree {p : List α} {fs : FileTree α β} (h : isDir p fs = false) :
    unlink p fs = removeTree p fs := by
  unfold unlink removeTree
  refine List.filter_congr fun f hf => ?_
  rw [decide_eq_decide]
  refine not_congr ⟨fun he => he ▸ List.prefix_rfl, fun hp => ?_⟩
  by_contra hne
  have hdir : isDir p fs = true := by
    refine List.any_eq_true.mpr ⟨f, hf, ?_⟩
    exact decide_eq_true ⟨hp, hne⟩
  exact Bool.false_ne_true (h.symm.trans hdir)

/-- Where nothing is, there is nothing to take away. -/
theorem removeTree_eq_self {p : List α} {fs : FileTree α β} (h : isDir p fs = false)
    (hnone : contentAt p fs = none) : removeTree p fs = fs := by
  rw [← unlink_eq_removeTree h]
  refine List.filter_eq_self.mpr fun f hf => decide_eq_true fun he => ?_
  rw [contentAt, Option.map_eq_none_iff, List.find?_eq_none] at hnone
  exact hnone f hf (decide_eq_true he)

end FileTree
