import Mathlib.Data.List.Basic
import Mathlib.Logic.Function.Basic

/-!
# Trees that are built level by level

A list is made into a tree by pairing neighbours, again and again, until one tree is left;
a last one that has no neighbour goes to the next level as it is. Two trees of one level
need not have one depth, then.

What a tree is worth is computed from its leaves upwards. `eval_injective` says when the
worth determines the tree, whatever the shapes: an inner node must not be mistaken for a
leaf, and both must determine what they were made of. And the tree determines the list
(`build_flatten`), because pairing keeps the order.
-/

/-- A tree with its values at the leaves, which is the shape a level by level fold builds. -/
inductive LevelTree (β : Type) where
  | leaf (b : β)
  | node (l r : LevelTree β)

namespace LevelTree

variable {α β : Type}

/-- The values at the leaves, from left to right, which is the level the tree was built
over, as `flatten_build` states. -/
def flatten : LevelTree β → List β
  | leaf b => [b]
  | node l r => l.flatten ++ r.flatten

/-- What a tree is worth, given the worth of a leaf and how two worths are joined. -/
def eval (ofLeaf : β → α) (ofNode : α → α → α) : LevelTree β → α
  | leaf b => ofLeaf b
  | node l r => ofNode (l.eval ofLeaf ofNode) (r.eval ofLeaf ofNode)

/-- One level up: neighbours are joined in pairs, and a last one without a neighbour is kept
as it is. -/
def pairUp : List (LevelTree β) → List (LevelTree β)
  | l :: r :: rest => node l r :: pairUp rest
  | [lone] => [lone]
  | [] => []

theorem length_pairUp : ∀ level : List (LevelTree β),
    (pairUp level).length = (level.length + 1) / 2
  | _ :: _ :: rest => by
    rw [pairUp, List.length_cons, length_pairUp rest, List.length_cons, List.length_cons]
    omega
  | [_] => by rw [pairUp, List.length_singleton]
  | [] => by rw [pairUp, List.length_nil]

/-- Pairing keeps the order. -/
theorem flatMap_pairUp : ∀ level : List (LevelTree β),
    (pairUp level).flatMap flatten = level.flatMap flatten
  | l :: r :: rest => by
    rw [pairUp, List.flatMap_cons, flatMap_pairUp rest, List.flatMap_cons, List.flatMap_cons,
      ← List.append_assoc]
    rfl
  | [_] => rfl
  | [] => rfl

/-- The tree of a level, if there is anything in it; neighbours are paired up until one is
left, and an odd one at the end goes up as it is. -/
def build (level : List (LevelTree β)) : Option (LevelTree β) :=
  match level with
  | [] => none
  | [root] => some root
  | l :: r :: rest => build (pairUp (l :: r :: rest))
termination_by level.length
decreasing_by
  rw [length_pairUp]
  simp only [List.length_cons]
  omega

/-- **The leaves of the tree of a level are those of the level.** -/
theorem build_flatten {level : List (LevelTree β)} {root : LevelTree β}
    (h : build level = some root) : root.flatten = level.flatMap flatten := by
  induction level using build.induct with
  | case1 =>
    rw [build] at h
    cases h
  | case2 lone =>
    rw [build] at h
    cases h
    exact (List.append_nil _).symm
  | case3 l r rest ih =>
    rw [build] at h
    rw [ih h, flatMap_pairUp]

theorem build_isSome {level : List (LevelTree β)} (h : level ≠ []) : (build level).isSome := by
  induction level using build.induct with
  | case1 => exact absurd rfl h
  | case2 lone =>
    rw [build]
    rfl
  | case3 l r rest ih =>
    rw [build]
    refine ih fun hnil => ?_
    cases hnil

/-- What is used of the worth of leaves and nodes: on values of some kind, both determine
what they were made of, and none is worth as much as one of the other kind. -/
structure Binding (kind : α → Prop) (ofLeaf : β → α) (ofNode : α → α → α) : Prop where
  leaf_kind : ∀ b, kind (ofLeaf b)
  node_kind : ∀ x y, kind (ofNode x y)
  leaf_inj : ∀ b b', ofLeaf b = ofLeaf b' → b = b'
  node_inj : ∀ x y x' y', kind x → kind y → kind x' → kind y' →
    ofNode x y = ofNode x' y' → x = x' ∧ y = y'
  apart : ∀ b x y, kind x → kind y → ofLeaf b ≠ ofNode x y

namespace Binding

variable {kind : α → Prop} {ofLeaf : β → α} {ofNode : α → α → α}

theorem eval_kind (h : Binding kind ofLeaf ofNode) : ∀ t : LevelTree β,
    kind (t.eval ofLeaf ofNode)
  | leaf b => h.leaf_kind b
  | node _ _ => h.node_kind _ _

/-- **The worth of a tree determines it**, whatever its shape. -/
theorem eval_injective (h : Binding kind ofLeaf ofNode) {t t' : LevelTree β}
    (heq : t.eval ofLeaf ofNode = t'.eval ofLeaf ofNode) : t = t' := by
  induction t generalizing t' with
  | leaf b =>
    cases t' with
    | leaf b' => exact congrArg leaf (h.leaf_inj b b' heq)
    | node l' r' => exact absurd heq (h.apart b _ _ (h.eval_kind l') (h.eval_kind r'))
  | node l r ihl ihr =>
    cases t' with
    | leaf b' => exact absurd heq.symm (h.apart b' _ _ (h.eval_kind l) (h.eval_kind r))
    | node l' r' =>
      obtain ⟨hl, hr⟩ := h.node_inj _ _ _ _ (h.eval_kind l) (h.eval_kind r) (h.eval_kind l')
        (h.eval_kind r') heq
      rw [ihl hl, ihr hr]

end Binding

end LevelTree
