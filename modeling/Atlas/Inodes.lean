import Mathlib.Logic.Function.Basic
import Mathlib.Data.Nat.Notation
import Mathlib.Data.Option.Basic

/-!
# Files with several names

A file is a node, which holds its content and whether it is read-only, and the
names that lead to it. A hard link is a second name for a node; a copy is a node
of its own. Content and permission belong to the node, so what is done through
one name is seen through every other one.

Some names are *guarded*: the node each leads to is to keep its content, and in
the strong form to stay read-only as well. The names are divided into those
inside a region and those outside it, guarded names are inside, and no two names
inside lead to one node (`Guards`). A guarded content then survives everything
that is written through the other names inside and whatever is linked, replaced
or removed outside; permission does not, for a name outside can lead to a guarded
node, and `Sealed` survives a change of permission only where it does not.
-/

/-- A file: its content, and whether it is read-only; the permission belongs to the node, so
that it is shared by all names of the file. -/
structure FileNode (β : Type) where
  content : β
  readonly : Bool
  deriving DecidableEq, Repr

/-- Nodes and the names that lead to them, as a file system keeps them: several names may
share one node. -/
structure Inodes (P β : Type) where
  names : P → Option ℕ
  nodes : ℕ → FileNode β
  /-- No node from here on has a name. -/
  next : ℕ

namespace Inodes

variable {P β : Type} [DecidableEq P]

/-- The file a name leads to, if the name is taken. -/
def file (fs : Inodes P β) (p : P) : Option (FileNode β) := (fs.names p).map fs.nodes

/-- A new node under a name, which no other name leads to. -/
def create (p : P) (f : FileNode β) (fs : Inodes P β) : Inodes P β where
  names := Function.update fs.names p (some fs.next)
  nodes := Function.update fs.nodes fs.next f
  next := fs.next + 1

/-- Write through a name, creating the file if there is none; a write goes to the node, and
is seen through every other name it has. -/
def put (p : P) (f : FileNode β) (fs : Inodes P β) : Inodes P β :=
  match fs.names p with
  | some n => { fs with nodes := Function.update fs.nodes n f }
  | none => create p f fs

/-- Set or clear the read-only permission through a name, which changes the node and so what
every other name sees; nothing happens to a missing file. -/
def chmod (p : P) (readonly : Bool) (fs : Inodes P β) : Inodes P β :=
  match fs.names p with
  | some n => { fs with
      nodes := Function.update fs.nodes n { fs.nodes n with readonly := readonly } }
  | none => fs

/-- Take a name away; the node stays for the names that are left. -/
def unlink (p : P) (fs : Inodes P β) : Inodes P β :=
  { fs with names := Function.update fs.names p none }

/-- Take several names away at once, as removing a directory does. -/
def unlinkAll (gone : P → Bool) (fs : Inodes P β) : Inodes P β :=
  { fs with names := fun p => if gone p then none else fs.names p }

/-- Give the node of one name to another name instead, whose own node loses a name; the
first name is gone, as `rename` does it in a directory. -/
def rename (p q : P) (fs : Inodes P β) : Inodes P β :=
  { fs with names := Function.update (Function.update fs.names p none) q (fs.names p) }

/-- A second name for the node of a name, so that both names see the same content and the
same permission from then on. -/
def link (p q : P) (fs : Inodes P β) : Inodes P β :=
  { fs with names := Function.update fs.names q (fs.names p) }

/-- Two names lead to one node, so that what is written under one is read under the other. -/
def Alias (fs : Inodes P β) (p q : P) : Prop :=
  ∃ n, fs.names p = some n ∧ fs.names q = some n

instance (fs : Inodes P β) (p q : P) : Decidable (fs.Alias p q) :=
  decidable_of_iff (∃ n ∈ fs.names p, fs.names q = some n) Iff.rfl

/-- Writing to a free name makes a file. -/
theorem put_of_free {p : P} {fs : Inodes P β} (hp : fs.names p = none) (f : FileNode β) :
    fs.put p f = fs.create p f := by
  unfold put
  rw [hp]

/-- A write goes to the name it is made through. -/
theorem file_put_self (p : P) (f : FileNode β) (fs : Inodes P β) :
    (fs.put p f).file p = some f := by
  unfold put file
  split
  · rename_i n hn
    simp only [hn, Option.map_some, Function.update_self]
  · simp only [create, Function.update_self, Option.map_some]

/-- A write makes no other name. -/
theorem names_put_of_ne {p q : P} (h : q ≠ p) (f : FileNode β) (fs : Inodes P β) :
    (fs.put p f).names q = fs.names q := by
  unfold put
  split
  · rfl
  · exact Function.update_of_ne h _ _

omit [DecidableEq P] in
/-- Permissions are no matter of names. -/
theorem names_chmod (p : P) (readonly : Bool) (fs : Inodes P β) :
    (fs.chmod p readonly).names = fs.names := by
  unfold chmod
  split
  · rfl
  · rfl

omit [DecidableEq P] in
theorem file_eq_none {p : P} {fs : Inodes P β} : fs.file p = none ↔ fs.names p = none :=
  Option.map_eq_none_iff

/-- **Guarded names keep their content.** `G` says which names are guarded, and
with what content. -/
structure Guards (inside : P → Prop) (G : P → Option β) (fs : Inodes P β) : Prop where
  /-- A node with a name was allocated. -/
  allocated : ∀ p n, fs.names p = some n → n < fs.next
  kept : ∀ p b, G p = some b → ∃ n, fs.names p = some n ∧ (fs.nodes n).content = b
  guarded_inside : ∀ p, (G p).isSome → inside p
  /-- No two names inside lead to one node. -/
  apart : ∀ p q n, inside p → inside q → fs.names p = some n → fs.names q = some n → p = q

/-- **Guarded names are read-only**: whatever node one of them leads to has its bit set. -/
def Sealed (G : P → Option β) (fs : Inodes P β) : Prop :=
  ∀ p, (G p).isSome → ∀ n, fs.names p = some n → (fs.nodes n).readonly = true

namespace Guards

variable {inside : P → Prop} {G : P → Option β} {fs : Inodes P β}

omit [DecidableEq P] in
/-- A guarded name leads to a file. -/
theorem file_eq (h : Guards inside G fs) {p : P} {b : β} (hp : G p = some b) :
    ∃ f, fs.file p = some f ∧ f.content = b := by
  obtain ⟨n, hn, hb⟩ := h.kept p b hp
  refine ⟨fs.nodes n, ?_, hb⟩
  rw [file, hn, Option.map_some]

/-- A new file under a name that is not guarded. -/
theorem create (h : Guards inside G fs) {p : P} (hp : G p = none) (f : FileNode β) :
    Guards inside G (create p f fs) := by
  have hold : ∀ q n, fs.names q = some n → n ≠ fs.next :=
    fun q n hn => Nat.ne_of_lt (h.allocated q n hn)
  refine ⟨fun q n hn => ?_, fun q b hq => ?_, h.guarded_inside, fun q r n hq hr hqn hrn => ?_⟩
  · by_cases hqp : q = p
    · subst hqp
      rw [show (Inodes.create q f fs).names q = some fs.next from Function.update_self ..] at hn
      cases hn
      exact Nat.lt_succ_self _
    · exact Nat.lt_succ_of_lt (h.allocated q n
        ((Function.update_of_ne hqp _ _).symm.trans hn))
  · have hqp : q ≠ p := fun he => by
      rw [he, hp] at hq
      cases hq
    obtain ⟨n, hn, hb⟩ := h.kept q b hq
    refine ⟨n, (Function.update_of_ne hqp _ _).trans hn, ?_⟩
    show (Function.update fs.nodes fs.next f n).content = b
    rw [Function.update_of_ne (hold q n hn)]
    exact hb
  · have hname : ∀ r, r ≠ p → (Inodes.create p f fs).names r = fs.names r :=
      fun r hr => Function.update_of_ne hr _ _
    have hself : (Inodes.create p f fs).names p = some fs.next := Function.update_self ..
    by_cases hqp : q = p
    · by_cases hrp : r = p
      · exact hqp.trans hrp.symm
      · rw [hqp, hself] at hqn
        cases hqn
        exact absurd rfl (hold r _ ((hname r hrp).symm.trans hrn))
    · by_cases hrp : r = p
      · rw [hrp, hself] at hrn
        cases hrn
        exact absurd rfl (hold q _ ((hname q hqp).symm.trans hqn))
      · rw [hname q hqp] at hqn
        rw [hname r hrp] at hrn
        exact h.apart q r n hq hr hqn hrn

/-- A new file is no guarded one's. -/
theorem not_alias_create (h : Guards inside G fs) {p : P} (hp : G p = none) (f : FileNode β) :
    ∀ q, (G q).isSome → ¬ (Inodes.create p f fs).Alias q p := by
  rintro q hq ⟨n, hqn, hpn⟩
  have hqp : q ≠ p := fun he => by
    rw [he, hp] at hq
    cases hq
  rw [show (Inodes.create p f fs).names p = some fs.next from Function.update_self ..] at hpn
  cases hpn
  exact absurd (h.allocated q _ ((Function.update_of_ne hqp _ _).symm.trans hqn))
    (Nat.lt_irrefl _)

omit [DecidableEq P] in
/-- Changing a node that no guarded name leads to. -/
theorem update_node (h : Guards inside G fs) {n : ℕ} (f : FileNode β)
    (hn : ∀ p, (G p).isSome → fs.names p ≠ some n) :
    Guards inside G { fs with nodes := Function.update fs.nodes n f } := by
  refine ⟨h.allocated, fun p b hp => ?_, h.guarded_inside, h.apart⟩
  obtain ⟨m, hm, hb⟩ := h.kept p b hp
  refine ⟨m, hm, ?_⟩
  have hmn : m ≠ n := fun he => hn p (by rw [hp]; rfl) (he ▸ hm)
  show (Function.update fs.nodes n f m).content = b
  rw [Function.update_of_ne hmn]
  exact hb

omit [DecidableEq P] in
/-- A node that a name inside leads to is no guarded one's, but its own. -/
theorem node_ne (h : Guards inside G fs) {p : P} (hin : inside p) (hp : G p = none) {n : ℕ}
    (hn : fs.names p = some n) : ∀ q, (G q).isSome → fs.names q ≠ some n := by
  intro q hq hqn
  have he := h.apart q p n (h.guarded_inside q hq) hin hqn hn
  rw [he, hp] at hq
  cases hq

/-- Writing through a name inside that is not guarded. -/
theorem put (h : Guards inside G fs) {p : P} (hin : inside p) (hp : G p = none)
    (f : FileNode β) : Guards inside G (put p f fs) := by
  unfold Inodes.put
  split
  · rename_i n hn
    exact h.update_node f (h.node_ne hin hp hn)
  · exact h.create hp f

omit [DecidableEq P] in
/-- Changing permissions changes no content. -/
theorem chmod (h : Guards inside G fs) (p : P) (readonly : Bool) :
    Guards inside G (chmod p readonly fs) := by
  unfold Inodes.chmod
  split
  · rename_i n hn
    refine ⟨h.allocated, fun q b hq => ?_, h.guarded_inside, h.apart⟩
    obtain ⟨m, hm, hb⟩ := h.kept q b hq
    refine ⟨m, hm, ?_⟩
    show (Function.update fs.nodes n { fs.nodes n with readonly := readonly } m).content = b
    by_cases hmn : m = n
    · subst hmn
      rw [Function.update_self]
      exact hb
    · rw [Function.update_of_ne hmn]
      exact hb
  · exact h

omit [DecidableEq P] in
/-- Taking names away that are not guarded. -/
theorem unlinkAll (h : Guards inside G fs) {gone : P → Bool}
    (hgone : ∀ p, gone p = true → G p = none) : Guards inside G (unlinkAll gone fs) := by
  have hname : ∀ p n, (Inodes.unlinkAll gone fs).names p = some n → fs.names p = some n := by
    intro p n hn
    by_cases hp : gone p = true
    · rw [show (Inodes.unlinkAll gone fs).names p = none from if_pos hp] at hn
      cases hn
    · exact (if_neg hp).symm.trans hn
  refine ⟨fun p n hn => h.allocated p n (hname p n hn), fun p b hp => ?_, h.guarded_inside,
    fun p q n hp hq hpn hqn => h.apart p q n hp hq (hname p n hpn) (hname q n hqn)⟩
  obtain ⟨n, hn, hb⟩ := h.kept p b hp
  refine ⟨n, (if_neg fun hg => ?_).trans hn, hb⟩
  rw [hgone p hg] at hp
  cases hp

theorem unlink_eq (p : P) (fs : Inodes P β) :
    Inodes.unlink p fs = Inodes.unlinkAll (fun q => decide (q = p)) fs := by
  unfold Inodes.unlink Inodes.unlinkAll
  congr 1
  funext q
  by_cases hq : q = p
  · subst hq
    simp
  · rw [Function.update_of_ne hq, if_neg (by simpa using hq)]

theorem unlink (h : Guards inside G fs) {p : P} (hp : G p = none) :
    Guards inside G (unlink p fs) := by
  rw [unlink_eq]
  exact h.unlinkAll fun q hq => of_decide_eq_true hq ▸ hp

/-- Moving a file between names that are not guarded, into the region from
within it or out of it. -/
theorem rename (h : Guards inside G fs) {p q : P} (hin : inside q → inside p)
    (hp : G p = none) (hq : G q = none) : Guards inside G (rename p q fs) := by
  have hself : (Inodes.rename p q fs).names q = fs.names p := Function.update_self ..
  have hname : ∀ r n, r ≠ q → (Inodes.rename p q fs).names r = some n →
      r ≠ p ∧ fs.names r = some n := by
    intro r n hr hn
    rw [show (Inodes.rename p q fs).names r = Function.update fs.names p none r from
      Function.update_of_ne hr _ _] at hn
    by_cases hrp : r = p
    · rw [hrp, Function.update_self] at hn
      cases hn
    · exact ⟨hrp, (Function.update_of_ne hrp _ _).symm.trans hn⟩
  refine ⟨fun r n hn => ?_, fun r b hr => ?_, h.guarded_inside, fun r s n hr hs hrn hsn => ?_⟩
  · by_cases hrq : r = q
    · exact h.allocated p n (hself.symm.trans (hrq ▸ hn))
    · exact h.allocated r n (hname r n hrq hn).2
  · obtain ⟨n, hn, hb⟩ := h.kept r b hr
    have hrq : r ≠ q := fun he => by rw [he, hq] at hr; cases hr
    have hrp : r ≠ p := fun he => by rw [he, hp] at hr; cases hr
    refine ⟨n, ?_, hb⟩
    show Function.update (Function.update fs.names p none) q (fs.names p) r = some n
    rw [Function.update_of_ne hrq, Function.update_of_ne hrp]
    exact hn
  · by_cases hrq : r = q
    · by_cases hsq : s = q
      · exact hrq.trans hsq.symm
      · obtain ⟨hsp, hsn⟩ := hname s n hsq hsn
        rw [hrq, hself] at hrn
        exact absurd (h.apart s p n hs (hin (hrq ▸ hr)) hsn hrn) hsp
    · obtain ⟨hrp, hrn⟩ := hname r n hrq hrn
      by_cases hsq : s = q
      · rw [hsq, hself] at hsn
        exact absurd (h.apart r p n hr (hin (hsq ▸ hs)) hrn hsn) hrp
      · exact h.apart r s n hr hs hrn (hname s n hsq hsn).2

/-- A second name, outside the region. -/
theorem link (h : Guards inside G fs) {q : P} (hout : ¬ inside q) (p : P) :
    Guards inside G (link p q fs) := by
  have hname : ∀ r, r ≠ q → (Inodes.link p q fs).names r = fs.names r :=
    fun r hr => Function.update_of_ne hr _ _
  have hself : (Inodes.link p q fs).names q = fs.names p := Function.update_self ..
  have hne : ∀ r, inside r → r ≠ q := fun r hr he => hout (he ▸ hr)
  refine ⟨fun r n hn => ?_, fun r b hr => ?_, h.guarded_inside, fun r s n hr hs hrn hsn => ?_⟩
  · by_cases hrq : r = q
    · subst hrq
      exact h.allocated p n (hself.symm.trans hn)
    · exact h.allocated r n ((hname r hrq).symm.trans hn)
  · obtain ⟨n, hn, hb⟩ := h.kept r b hr
    exact ⟨n, (hname r (hne r (h.guarded_inside r (by rw [hr]; rfl)))).trans hn, hb⟩
  · rw [hname r (hne r hr)] at hrn
    rw [hname s (hne s hs)] at hsn
    exact h.apart r s n hr hs hrn hsn

/-- Guard a name that leads to a file, with the content it has. -/
theorem guard (h : Guards inside G fs) {p : P} (hin : inside p) {f : FileNode β}
    (hf : fs.file p = some f) : Guards inside (Function.update G p (some f.content)) fs := by
  refine ⟨h.allocated, fun q b hq => ?_, fun q hq => ?_, h.apart⟩
  · by_cases hqp : q = p
    · subst hqp
      rw [Function.update_self] at hq
      cases hq
      obtain ⟨n, hn, rfl⟩ := Option.map_eq_some_iff.mp hf
      exact ⟨n, hn, rfl⟩
    · rw [Function.update_of_ne hqp] at hq
      exact h.kept q b hq
  · by_cases hqp : q = p
    · exact hqp ▸ hin
    · rw [Function.update_of_ne hqp] at hq
      exact h.guarded_inside q hq

/-- Guard a name no longer. -/
theorem release (h : Guards inside G fs) (p : P) :
    Guards inside (Function.update G p none) fs := by
  have hsub : ∀ q b, Function.update G p none q = some b → G q = some b := by
    intro q b hq
    by_cases hqp : q = p
    · subst hqp
      rw [Function.update_self] at hq
      cases hq
    · rwa [Function.update_of_ne hqp] at hq
  refine ⟨h.allocated, fun q b hq => h.kept q b (hsub q b hq), fun q hq => ?_, h.apart⟩
  obtain ⟨b, hb⟩ := Option.isSome_iff_exists.mp hq
  exact h.guarded_inside q (by rw [hsub q b hb]; rfl)

end Guards

namespace Sealed

variable {inside : P → Prop} {G : P → Option β} {fs fs' : Inodes P β}

omit [DecidableEq P] in
/-- What leaves guarded names where they are and their nodes read-only. -/
theorem of_kept (fs : Inodes P β) {fs' : Inodes P β}
    (hnames : ∀ p, (G p).isSome → fs'.names p = fs.names p)
    (hnodes : ∀ p n, (G p).isSome → fs.names p = some n → (fs'.nodes n).readonly = true) :
    Sealed G fs' :=
  fun p hp n hn => hnodes p n hp ((hnames p hp).symm.trans hn)

theorem create (hs : Sealed G fs) (h : Guards inside G fs) {p : P} (hp : G p = none)
    (f : FileNode β) : Sealed G (create p f fs) := by
  refine of_kept fs (fun q hq => Function.update_of_ne (fun he => ?_) _ _)
    fun q n hq hn => ?_
  · rw [he, hp] at hq
    cases hq
  · show (Function.update fs.nodes fs.next f n).readonly = true
    rw [Function.update_of_ne (Nat.ne_of_lt (h.allocated q n hn))]
    exact hs q hq n hn

theorem put (hs : Sealed G fs) (h : Guards inside G fs) {p : P} (hin : inside p)
    (hp : G p = none) (f : FileNode β) : Sealed G (put p f fs) := by
  unfold Inodes.put
  split
  · rename_i n hn
    refine of_kept fs (fun _ _ => rfl) fun q m hq hm => ?_
    have hmn : m ≠ n := fun he => h.node_ne hin hp hn q hq (he ▸ hm)
    show (Function.update fs.nodes n f m).readonly = true
    rw [Function.update_of_ne hmn]
    exact hs q hq m hm
  · exact hs.create h hp f

omit [DecidableEq P] in
/-- Setting the permission seals at least what was sealed. -/
theorem protect (hs : Sealed G fs) (p : P) : Sealed G (chmod p true fs) := by
  unfold chmod
  split
  · rename_i n hn
    refine of_kept fs (fun _ _ => rfl) fun q m hq hm => ?_
    show (Function.update fs.nodes n { fs.nodes n with readonly := true } m).readonly = true
    by_cases hmn : m = n
    · rw [hmn, Function.update_self]
    · rw [Function.update_of_ne hmn]
      exact hs q hq m hm
  · exact hs

omit [DecidableEq P] in
/-- **Clearing the permission through a name that leads to no guarded node.** -/
theorem open_of_not_alias (hs : Sealed G fs) {p : P}
    (hp : ∀ q, (G q).isSome → ¬ fs.Alias q p) : Sealed G (chmod p false fs) := by
  unfold chmod
  split
  · rename_i n hn
    refine of_kept fs (fun _ _ => rfl) fun q m hq hm => ?_
    have hmn : m ≠ n := fun he => hp q hq ⟨n, he ▸ hm, hn⟩
    show (Function.update fs.nodes n { fs.nodes n with readonly := false } m).readonly = true
    rw [Function.update_of_ne hmn]
    exact hs q hq m hm
  · exact hs

omit [DecidableEq P] in
theorem unlinkAll (hs : Sealed G fs) {gone : P → Bool}
    (hgone : ∀ p, gone p = true → G p = none) : Sealed G (unlinkAll gone fs) :=
  of_kept fs (fun p hp => if_neg fun hg => by rw [hgone p hg] at hp; cases hp)
    fun p n hp hn => hs p hp n hn

theorem unlink (hs : Sealed G fs) {p : P} (hp : G p = none) : Sealed G (unlink p fs) := by
  rw [Guards.unlink_eq]
  exact hs.unlinkAll fun q hq => of_decide_eq_true hq ▸ hp

theorem rename (hs : Sealed G fs) {p q : P} (hp : G p = none) (hq : G q = none) :
    Sealed G (rename p q fs) := by
  refine of_kept fs (fun r hr => ?_) fun r n hr hn => hs r hr n hn
  have hne : ∀ s, G s = none → r ≠ s := fun s hs he => by
    rw [he, hs] at hr
    cases hr
  exact (Function.update_of_ne (hne q hq) _ _).trans (Function.update_of_ne (hne p hp) _ _)

theorem link (hs : Sealed G fs) {q : P} (hq : G q = none) (p : P) :
    Sealed G (link p q fs) :=
  of_kept fs (fun r hr => Function.update_of_ne (fun he => by
    rw [he, hq] at hr
    cases hr) _ _) fun r n hr hn => hs r hr n hn

/-- Guard a name that leads to a read-only file. -/
theorem guard (hs : Sealed G fs) {p : P} {f : FileNode β} (hf : fs.file p = some f)
    (hro : f.readonly = true) : Sealed (Function.update G p (some f.content)) fs := by
  intro q hq n hn
  by_cases hqp : q = p
  · rw [hqp] at hn
    obtain ⟨m, hm, rfl⟩ := Option.map_eq_some_iff.mp hf
    rw [hn] at hm
    cases hm
    exact hro
  · rw [Function.update_of_ne hqp] at hq
    exact hs q hq n hn

theorem release (hs : Sealed G fs) (p : P) : Sealed (Function.update G p none) fs := by
  intro q hq n hn
  by_cases hqp : q = p
  · rw [hqp, Function.update_self] at hq
    cases hq
  · rw [Function.update_of_ne hqp] at hq
    exact hs q hq n hn

end Sealed

end Inodes
