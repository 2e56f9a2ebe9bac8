import Mathlib.Data.List.Basic
import Atlas.Text

/-!
# Paths read lexically

A path is an anchor, which says where it starts, and a text that is cut into components
by separators. Read lexically, without asking a file system, an empty component and `.`
mean nothing, and `..` takes back the component before it, if there is one to take back:
above the root there is nothing, and in front of a relative path it stays
(`LexicalPath.climb`).

What a path that never climbs adds to another one is exactly its components with a meaning
(`LexicalPath.names_append_sep`, `LexicalPath.names_append_of_ends`).
-/

open Text

namespace LexicalPath

variable {isSep : Char → Bool} {rooted : Bool}

/-- The components of a text, between its separators, the empty ones included. -/
def pieces (isSep : Char → Bool) (s : Text) : List Text := s.splitOnP isSep

/-- A component that is neither empty nor `.`, so that it names something or steps upwards. -/
def meaningful (piece : Text) : Bool := decide (piece ≠ []) && decide (piece ≠ ".".toList)

/-- One more component, after some names: a step down, a step up where `..` takes the last
name off, or none. -/
def climb (rooted : Bool) (stack : List Text) (piece : Text) : List Text :=
  if !meaningful piece then stack
  else if piece = "..".toList then
    match stack.getLast? with
    | none => if rooted then [] else [piece]
    | some top => if top = "..".toList then stack ++ [piece] else stack.dropLast
  else stack ++ [piece]

/-- The names a text leads through, once `.` and `..` have been resolved by their texts alone. -/
def names (isSep : Char → Bool) (rooted : Bool) (s : Text) : List Text :=
  (pieces isSep s).foldl (climb rooted) []

/-- Components that do not climb are added, those with a meaning. -/
theorem foldl_climb {l : List Text} (hl : "..".toList ∉ l) (stack : List Text) :
    l.foldl (climb rooted) stack = stack ++ l.filter meaningful := by
  induction l generalizing stack with
  | nil => exact (List.append_nil stack).symm
  | cons piece l ih =>
    obtain ⟨hne, hrest⟩ := not_or.mp fun h => hl (List.mem_cons.mpr h)
    rw [List.foldl_cons, ih hrest, climb, List.filter_cons]
    cases meaningful piece with
    | false => rfl
    | true =>
      rw [Bool.not_true, if_neg Bool.false_ne_true, if_neg (Ne.symm hne), if_pos rfl,
        List.append_assoc]
      rfl

@[simp] theorem names_nil : names isSep rooted [] = [] := by
  unfold names pieces
  rw [List.splitOnP_nil]
  rfl

/-- What comes after a separator goes on from what comes before it. -/
theorem names_append_cons {sep : Char} (hsep : isSep sep = true) (s t : Text) :
    names isSep rooted (s ++ sep :: t) =
      (pieces isSep t).foldl (climb rooted) (names isSep rooted s) := by
  unfold names pieces
  rw [List.splitOnP_append_cons _ _ hsep, List.foldl_append]

/-- **What comes after a separator** is added. -/
theorem names_append_sep {sep : Char} (hsep : isSep sep = true) (s : Text) {t : Text}
    (ht : "..".toList ∉ pieces isSep t) :
    names isSep rooted (s ++ sep :: t) =
      names isSep rooted s ++ (pieces isSep t).filter meaningful := by
  rw [names_append_cons hsep]
  exact foldl_climb ht _

/-- A separator at the end means nothing. -/
theorem names_append_singleton {sep : Char} (hsep : isSep sep = true) (s : Text) :
    names isSep rooted (s ++ [sep]) = names isSep rooted s := by
  have hnil : pieces isSep [] = [[]] := List.splitOnP_nil
  have happend := @names_append_sep _ rooted _ hsep s [] (by
    rw [hnil]
    decide)
  rw [happend, hnil]
  exact List.append_nil _

/-- **What comes after a text that ends in a separator**, or is empty, is added. -/
theorem names_append_of_ends {s t : Text} (hs : s = [] ∨ ∃ c, s.getLast? = some c ∧
    isSep c = true) (ht : "..".toList ∉ pieces isSep t) :
    names isSep rooted (s ++ t) =
      names isSep rooted s ++ (pieces isSep t).filter meaningful := by
  obtain rfl | ⟨c, hlast, hc⟩ := hs
  · rw [names_nil, List.nil_append]
    exact foldl_climb ht []
  · obtain ⟨s', rfl⟩ : ∃ s', s = s' ++ [c] := List.getLast?_eq_some_iff.mp hlast
    rw [List.append_assoc, List.singleton_append, names_append_sep hc s' ht,
      names_append_singleton hc]

/-- Cutting at either of two kinds of separators is cutting at one and then at the other. -/
theorem pieces_or (f g : Char → Bool) (s : Text) :
    pieces (fun c => f c || g c) s = (pieces f s).flatMap (pieces g) := by
  unfold pieces
  induction s with
  | nil =>
    rw [List.splitOnP_nil, List.splitOnP_nil, List.flatMap_singleton, List.splitOnP_nil]
  | cons c s ih =>
    rw [List.splitOnP_cons_eq_if_modifyHead, List.splitOnP_cons_eq_if_modifyHead, ih]
    cases hf : f c with
    | true =>
      rw [Bool.true_or, if_pos rfl, if_pos rfl, List.flatMap_cons, List.splitOnP_nil]
      rfl
    | false =>
      obtain ⟨first, rest, hcons⟩ := List.exists_cons_of_ne_nil (List.splitOnP_ne_nil f s)
      rw [Bool.false_or, hcons, if_neg Bool.false_ne_true, List.modifyHead_cons,
        List.flatMap_cons, List.flatMap_cons, List.splitOnP_cons_eq_if_modifyHead]
      cases hg : g c with
      | true => rfl
      | false =>
        obtain ⟨first', rest', hcons'⟩ :=
          List.exists_cons_of_ne_nil (List.splitOnP_ne_nil g first)
        rw [if_neg Bool.false_ne_true, if_neg Bool.false_ne_true, hcons']
        rfl

/-- A text without a separator is one component. -/
theorem pieces_of_forall {s : Text} (h : ∀ c ∈ s, isSep c = false) : pieces isSep s = [s] :=
  List.splitOnP_eq_singleton h

/-- Texts with a separator between them lead through the components of all of them. -/
theorem foldl_pieces_intercalate {sep : Char} (hsep : isSep sep = true) (l : List Text)
    (stack : List Text) :
    (pieces isSep (List.intercalate [sep] l)).foldl (climb rooted) stack =
      (l.flatMap (pieces isSep)).foldl (climb rooted) stack := by
  match l with
  | [] =>
    show (pieces isSep []).foldl (climb rooted) stack = stack
    unfold pieces
    rw [List.splitOnP_nil]
    rfl
  | [s] => rw [List.flatMap_singleton, show List.intercalate [sep] [s] = s by
      simp [List.intercalate]]
  | s :: s' :: rest =>
    have hcut : List.intercalate [sep] (s :: s' :: rest) =
        s ++ sep :: List.intercalate [sep] (s' :: rest) := by
      simp [List.intercalate, List.intersperse]
    rw [hcut, List.flatMap_cons, List.foldl_append]
    unfold pieces
    rw [List.splitOnP_append_cons _ _ hsep, List.foldl_append]
    exact foldl_pieces_intercalate hsep (s' :: rest) _

/-- Empty texts lead nowhere. -/
theorem foldl_flatMap_filter (l : List Text) (stack : List Text) :
    ((l.filter (· ≠ [])).flatMap (pieces isSep)).foldl (climb rooted) stack =
      (l.flatMap (pieces isSep)).foldl (climb rooted) stack := by
  induction l generalizing stack with
  | nil => rfl
  | cons s l ih =>
    rw [List.filter_cons, List.flatMap_cons, List.foldl_append]
    by_cases hs : s = []
    · have hempty : ¬ decide (s ≠ []) = true := fun h => (of_decide_eq_true h) hs
      rw [if_neg hempty, ih, hs]
      unfold pieces
      rw [List.splitOnP_nil]
      rfl
    · rw [if_pos (decide_eq_true hs), List.flatMap_cons, List.foldl_append, ih]

/-- No component has a separator in it. -/
theorem not_isSep_of_mem_pieces {s piece : Text} (h : piece ∈ pieces isSep s) :
    ∀ c ∈ piece, isSep c = false := by
  unfold pieces at h
  induction s generalizing piece with
  | nil =>
    rw [List.splitOnP_nil, List.mem_singleton] at h
    rw [h]
    exact fun c hc => nomatch hc
  | cons c s ih =>
    rw [List.splitOnP_cons_eq_if_modifyHead] at h
    cases hc : isSep c with
    | true =>
      rw [hc, if_pos rfl] at h
      obtain rfl | hmem := List.mem_cons.mp h
      · exact fun c hc => nomatch hc
      · exact ih hmem
    | false =>
      obtain ⟨first, rest, hcons⟩ :=
        List.exists_cons_of_ne_nil (List.splitOnP_ne_nil isSep s)
      rw [hc, if_neg Bool.false_ne_true, hcons, List.modifyHead_cons] at h
      obtain rfl | hmem := List.mem_cons.mp h
      · refine List.forall_mem_cons.mpr ⟨hc, ih ?_⟩
        rw [hcons]
        exact List.mem_cons_self
      · refine ih ?_
        rw [hcons]
        exact List.mem_cons_of_mem _ hmem

/-! ## Below a path -/

/-- A path read lexically: where it starts, and the names it leads through. -/
structure Path (α : Type) where
  anchor : α
  names : List Text
  deriving DecidableEq, Repr

/-- A path lies strictly below another one: it starts where that starts, and goes on from
it without climbing. -/
def Path.StrictlyBelow {α : Type} (p root : Path α) : Prop :=
  p.anchor = root.anchor ∧ ∃ rest, rest ≠ [] ∧ "..".toList ∉ rest ∧
    p.names = root.names ++ rest

/-- What is below a path that is below another one is below that. -/
theorem Path.StrictlyBelow.trans {α : Type} {p q root : Path α} (hp : p.StrictlyBelow q)
    (hq : q.StrictlyBelow root) : p.StrictlyBelow root := by
  obtain ⟨hanchor, rest, -, hrest, hnames⟩ := hp
  obtain ⟨hanchor', front, hne, hfront, hnames'⟩ := hq
  refine ⟨hanchor.trans hanchor', front ++ rest, List.append_ne_nil_of_left_ne_nil hne rest,
    List.not_mem_append hfront hrest, ?_⟩
  rw [hnames, hnames', List.append_assoc]

/-- A path that adds components which do not climb is below exactly if one of them has a
meaning. -/
theorem strictlyBelow_iff {α : Type} {p root : Path α} {l : List Text}
    (hl : "..".toList ∉ l) (hanchor : p.anchor = root.anchor)
    (hnames : p.names = root.names ++ l.filter meaningful) :
    p.StrictlyBelow root ↔ ∃ piece ∈ l, meaningful piece = true := by
  constructor
  · rintro ⟨-, rest, hrest, -, heq⟩
    rw [hnames] at heq
    rw [← List.append_cancel_left heq] at hrest
    obtain ⟨piece, hpiece⟩ := List.exists_mem_of_ne_nil _ hrest
    exact ⟨piece, List.mem_filter.mp hpiece⟩
  · rintro ⟨piece, hpiece, hmeaning⟩
    exact ⟨hanchor, l.filter meaningful,
      List.ne_nil_of_mem (List.mem_filter.mpr ⟨hpiece, hmeaning⟩),
      fun h => hl (List.mem_filter.mp h).1, hnames⟩

end LexicalPath
