import Mathlib.Data.List.Infix
import Mathlib.Data.Nat.Notation
import Mathlib.Logic.Function.Basic
import Atlas.Program

/-!
# Files that survive a crash

A program that works on files takes steps, and each step is done or not: a file is cut to
nothing, gets one byte more, is renamed, is removed, a table is changed. After any of them
the process may die. What it leaves is the volume as it is then, and in particular any
prefix of a file it was writing.

A program is run with the number of steps after which the process dies, if it does. Of a
program that may die the rules say what holds of every volume it may leave
(`writeFile_returns`); of one that does not die they compute the volume (`writeFile_whole`),
and `Completes` is that it comes to its end.
-/

namespace CrashFiles

open Program

/-- Files by name, and what else survives a crash, such as a database's tables. -/
structure Volume (N T : Type) where
  files : N → Option (List UInt8)
  tables : T

/-- A volume, and after how many more steps the process that works on it dies, if it does. -/
structure Running (N T : Type) where
  volume : Volume N T
  left : Option ℕ

/-- A program that works on a volume step by step; the steps left before a crash are part of
the state. -/
abbrev Steps (N T ε : Type) := Program (Running N T) ε

variable {N T ε α β : Type}

/-- One step: it is done, or the process dies before it, and none of it shows. -/
def atomically (f : Volume N T → Volume N T) : Steps N T ε Unit := fun s =>
  match s.left with
  | some 0 => (.crash, s)
  | some (n + 1) => (.ok (), ⟨f s.volume, some n⟩)
  | none => (.ok (), ⟨f s.volume, none⟩)

/-- Look at the volume without changing it; a crash before or after finds it the same. -/
def look : Steps N T ε (Volume N T) := fun s => (.ok s.volume, s)

section Files

variable [DecidableEq N]

/-- Put a file under a name, or remove what is there, in one piece. -/
def Volume.set (name : N) (file : Option (List UInt8)) (v : Volume N T) : Volume N T :=
  { v with files := Function.update v.files name file }

@[simp] theorem Volume.set_files_self (name : N) (file : Option (List UInt8))
    (v : Volume N T) : (v.set name file).files name = file :=
  Function.update_self _ _ _

@[simp] theorem Volume.set_files_of_ne {name name' : N} (h : name' ≠ name)
    (file : Option (List UInt8)) (v : Volume N T) :
    (v.set name file).files name' = v.files name' :=
  Function.update_of_ne h _ _

@[simp] theorem Volume.set_tables (name : N) (file : Option (List UInt8)) (v : Volume N T) :
    (v.set name file).tables = v.tables := rfl

@[simp] theorem Volume.set_set (name : N) (file file' : Option (List UInt8))
    (v : Volume N T) : (v.set name file).set name file' = v.set name file' := by
  unfold Volume.set
  simp

/-- Write what is left of a file, byte by byte, so that a crash leaves a beginning of it. -/
def writeFrom (name : N) (done : List UInt8) : List UInt8 → Steps N T ε Unit
  | [] => pure ()
  | b :: rest => do
    atomically (Volume.set name (some (done ++ [b])))
    writeFrom name (done ++ [b]) rest

/-- Write a file: it is cut to nothing, and then written. -/
def writeFile (name : N) (bytes : List UInt8) : Steps N T ε Unit := do
  atomically (Volume.set name (some []))
  writeFrom name [] bytes

/-- Delete a file, at once. That it is not there is no failure. -/
def remove (name : N) : Steps N T ε Unit := atomically (Volume.set name none)

/-- Give a file another name, in place of what has it, in one step, as file systems promise. -/
def rename (name name' : N) : Steps N T ε Unit :=
  atomically fun v => (v.set name' (v.files name)).set name none

end Files

/-! ## Programs that may die -/

/-- A fact about the volume, read as one about the program that runs on it. -/
def On (P : Volume N T → Prop) (s : Running N T) : Prop := P s.volume

/-- **A step that is done or not.** -/
theorem atomically_returns {P I R : Volume N T → Prop} {f : Volume N T → Volume N T}
    (hP : ∀ v, P v → I v) (hf : ∀ v, P v → I (f v) ∧ R (f v)) :
    Triple (On P) (atomically f : Steps N T ε Unit) (Returns (On I) fun _ => On R) := by
  rintro ⟨v, left⟩ hv
  match left with
  | some 0 => exact hP v hv
  | some (n + 1) => exact hf v hv
  | none => exact hf v hv

/-- Looking changes nothing. -/
theorem look_returns {I : Running N T → Prop} :
    Triple I (look : Steps N T ε _) (Returns I fun v s => s.volume = v) :=
  fun _ hs => ⟨hs, rfl⟩

section Files

variable [DecidableEq N]

theorem writeFrom_returns {P I R : Volume N T → Prop} {name : N} (done rest : List UInt8)
    (hI : ∀ v, P v → ∀ part, part <+: done ++ rest → I (v.set name (some part)))
    (hR : ∀ v, P v → R (v.set name (some (done ++ rest)))) :
    Triple (On fun v => ∃ v₀, P v₀ ∧ v = v₀.set name (some done))
      (writeFrom name done rest : Steps N T ε Unit) (Returns (On I) fun _ => On R) := by
  induction rest generalizing done with
  | nil =>
    rintro ⟨_, left⟩ ⟨v, hv, rfl⟩
    have hdone := hI v hv done (List.prefix_append _ _)
    have hall := hR v hv
    rw [List.append_nil] at hall
    exact ⟨hdone, hall⟩
  | cons b rest ih =>
    have hsplit : done ++ [b] ++ rest = done ++ b :: rest := by simp
    refine Triple.bind_returns (atomically_returns ?_ ?_) (fun _ h => h) fun _ =>
      (ih (done ++ [b]) (fun v hv part hpart => hI v hv part (hsplit ▸ hpart))
        (fun v hv => hsplit ▸ hR v hv)).conseq (fun _ h => h.2) fun _ _ h => h
    · rintro _ ⟨v, hv, rfl⟩
      exact hI v hv done (List.prefix_append _ _)
    · rintro _ ⟨v, hv, rfl⟩
      rw [Volume.set_set]
      refine ⟨hI v hv _ ?_, v, hv, rfl⟩
      rw [← hsplit]
      exact List.prefix_append _ _

/-- **A file that is written may be left with any prefix of it.** -/
theorem writeFile_returns {P I R : Volume N T → Prop} {name : N} {bytes : List UInt8}
    (hP : ∀ v, P v → I v)
    (hI : ∀ v, P v → ∀ part, part <+: bytes → I (v.set name (some part)))
    (hR : ∀ v, P v → R (v.set name (some bytes))) :
    Triple (On P) (writeFile name bytes : Steps N T ε Unit)
      (Returns (On I) fun _ => On R) := by
  have hcut : Triple (On P) (atomically (Volume.set name (some [])) : Steps N T ε Unit)
      (Returns (On I) fun _ => On fun v => ∃ v₀, P v₀ ∧ v = v₀.set name (some [])) :=
    atomically_returns hP fun v hv => ⟨hI v hv [] List.nil_prefix, v, hv, rfl⟩
  exact Triple.bind_returns hcut (fun _ h => h) fun _ =>
    (writeFrom_returns [] bytes hI hR).conseq (fun _ h => h.2) fun _ _ h => h

end Files

/-! ## What holds of every file -/

section Everywhere

variable {G : N → List UInt8 → Prop} {v : Volume N T}

/-- Every file is as its name wants it, where `G` says for each name which contents are good. -/
def Everywhere (G : N → List UInt8 → Prop) (v : Volume N T) : Prop :=
  ∀ name bytes, v.files name = some bytes → G name bytes

/-- Steps keep what they keep, done or not. -/
theorem keeps_atomically {I : Volume N T → Prop} {f : Volume N T → Volume N T}
    (h : ∀ v, I v → I (f v)) : Keeps (On I) (atomically f : Steps N T ε Unit) :=
  (atomically_returns (fun _ => id) fun v hv => ⟨h v hv, h v hv⟩).post fun _ _ => Returns.inv

variable [DecidableEq N] {name name' : N}

theorem Everywhere.write (h : Everywhere G v) {bytes : List UInt8} (hnew : G name bytes) :
    Everywhere G (v.set name (some bytes)) := by
  intro other file hfile
  by_cases heq : other = name
  · rw [heq, Volume.set_files_self] at hfile
    rw [heq, ← Option.some.inj hfile]
    exact hnew
  · rw [Volume.set_files_of_ne heq] at hfile
    exact h other file hfile

theorem Everywhere.remove (h : Everywhere G v) : Everywhere G (v.set name none) := by
  intro other file hfile
  by_cases heq : other = name
  · rw [heq, Volume.set_files_self] at hfile
    cases hfile
  · rw [Volume.set_files_of_ne heq] at hfile
    exact h other file hfile

/-- A file that gets another name has to be as that name wants it. -/
theorem Everywhere.rename (h : Everywhere G v)
    (hnew : ∀ bytes, v.files name = some bytes → G name' bytes) :
    Everywhere G ((v.set name' (v.files name)).set name none) := by
  refine Everywhere.remove ?_
  cases hfile : v.files name with
  | none => exact h.remove
  | some bytes => exact h.write (hnew bytes hfile)

/-- A file that any prefix of is as its name wants it can be written. -/
theorem keeps_writeFile {bytes : List UInt8} (h : ∀ part, part <+: bytes → G name part) :
    Keeps (On (Everywhere G)) (writeFile name bytes : Steps N T ε Unit) :=
  (writeFile_returns (fun _ => id) (fun _ hv part hpart => hv.write (h part hpart))
    fun _ hv => hv.write (h bytes List.prefix_rfl)).post fun _ _ => Returns.inv

end Everywhere

/-! ## Programs that do not die -/

/-- A fact about the volume of a process that does not die. -/
def Unhurt (P : Volume N T → Prop) (s : Running N T) : Prop := s.left = none ∧ P s.volume

/-- A program that is not interrupted comes to its end, with a value and a volume
related by `R`. -/
def Completes (x : Steps N T ε α) (v : Volume N T) (R : α → Volume N T → Prop) : Prop :=
  ∃ a v', x ⟨v, none⟩ = (.ok a, ⟨v', none⟩) ∧ R a v'

namespace Completes

variable {x : Steps N T ε α} {f : α → Steps N T ε β} {v : Volume N T}
  {R R' : α → Volume N T → Prop} {S : β → Volume N T → Prop}

theorem mono (h : Completes x v R) (hR : ∀ a v', R a v' → R' a v') : Completes x v R' := by
  obtain ⟨a, v', hx, ha⟩ := h
  exact ⟨a, v', hx, hR a v' ha⟩

theorem bind (hx : Completes x v R) (hf : ∀ a v', R a v' → Completes (f a) v' S) :
    Completes (x >>= f) v S := by
  obtain ⟨a, v', hx, ha⟩ := hx
  obtain ⟨b, v'', hfa, hb⟩ := hf a v' ha
  exact ⟨b, v'', (bind_of_ok hx).trans hfa, hb⟩

/-- What follows a program that comes to its end decides. -/
theorem bind_iff {a : α} {v' : Volume N T} (hx : x ⟨v, none⟩ = (.ok a, ⟨v', none⟩)) :
    Completes (x >>= f) v S ↔ Completes (f a) v' S := by
  unfold Completes
  rw [bind_of_ok hx]

/-- A program that only reads comes to its end if what follows it does. -/
theorem of_bind (h : Completes (x >>= f) v S) (hx : (x ⟨v, none⟩).2 = ⟨v, none⟩) :
    Completes x v fun _ v' => v' = v := by
  obtain ⟨b, v', hrun, -⟩ := h
  obtain ⟨a, s, hfirst, -⟩ := bind_eq_ok hrun
  rw [hfirst] at hx
  exact ⟨a, v, hfirst.trans (congrArg _ hx), rfl⟩

/-- What it leaves however it ends, it leaves when it comes to its end. -/
theorem and_leaves {P Q : Volume N T → Prop} (h : Completes x v R)
    (hx : Triple (Unhurt P) x (fun _ => Unhurt Q)) (hP : P v) :
    Completes x v fun a v' => R a v' ∧ Q v' := by
  obtain ⟨a, v', hrun, ha⟩ := h
  have hleft := hx ⟨v, none⟩ ⟨rfl, hP⟩
  rw [hrun] at hleft
  exact ⟨a, v', hrun, ha, hleft.2⟩

@[simp] theorem pure_iff {a : α} : Completes (pure a : Steps N T ε α) v R ↔ R a v := by
  constructor
  · rintro ⟨_, _, hx, h⟩
    cases hx
    exact h
  · intro h
    exact ⟨a, v, rfl, h⟩

@[simp] theorem throw_iff {e : ε} : ¬ Completes (throw e : Steps N T ε α) v R := by
  rintro ⟨_, _, hx, -⟩
  cases hx

/-- A program comes to its end if it does with a value put in place of its own. -/
theorem bind_pure_iff {g : α → β} :
    Completes (x >>= fun a => pure (g a)) v (fun _ _ => True) ↔
      Completes x v fun _ _ => True := by
  constructor
  · rintro ⟨b, v', hrun, -⟩
    obtain ⟨a, s, hfirst, hlast⟩ := bind_eq_ok hrun
    cases hlast
    exact ⟨a, v', hfirst, trivial⟩
  · exact fun h => h.bind fun _ _ _ => pure_iff.mpr trivial

theorem ofExcept_bind_iff {a : α} {r : Except ε α} (hr : r = .ok a) :
    Completes (Program.ofExcept r >>= f) v S ↔ Completes (f a) v S := by
  subst hr
  exact bind_iff rfl

theorem look_bind_iff {f : Volume N T → Steps N T ε β} :
    Completes (look >>= f) v S ↔ Completes (f v) v S :=
  bind_iff rfl

theorem atomically_bind_iff {g : Volume N T → Volume N T} {f : Unit → Steps N T ε β} :
    Completes (CrashFiles.atomically g >>= f) v S ↔ Completes (f ()) (g v) S :=
  bind_iff rfl

theorem atomically_iff {g : Volume N T → Volume N T} {R : Unit → Volume N T → Prop} :
    Completes (CrashFiles.atomically g : Steps N T ε Unit) v R ↔ R () (g v) := by
  constructor
  · rintro ⟨_, _, hx, h⟩
    cases hx
    exact h
  · intro h
    exact ⟨(), g v, rfl, h⟩

end Completes

/-- A step does not decide when the process dies. -/
theorem alive_atomically (f : Volume N T → Volume N T) :
    Keeps (fun s => s.left = none) (atomically f : Steps N T ε Unit) := by
  rintro ⟨v, _⟩ rfl
  rfl

/-- What a process keeps that may die, it keeps when it does not. -/
theorem unhurt_of {P : Volume N T → Prop} {x : Steps N T ε α}
    {Q : Exit ε α → Running N T → Prop} (h : Triple (On P) x Q)
    (halive : Keeps (fun s => s.left = none) x) :
    Triple (Unhurt P) x (fun r s => s.left = none ∧ Q r s) :=
  fun s hs => ⟨halive s hs.1, h s hs.2⟩

section Files

variable [DecidableEq N]

theorem writeFrom_whole (name : N) (done rest : List UInt8) (v : Volume N T) :
    (writeFrom name done rest : Steps N T ε Unit) ⟨v.set name (some done), none⟩ =
      (.ok (), ⟨v.set name (some (done ++ rest)), none⟩) := by
  induction rest generalizing done with
  | nil =>
    rw [List.append_nil]
    rfl
  | cons b rest ih =>
    show (writeFrom name (done ++ [b]) rest : Steps N T ε Unit)
      ⟨(v.set name (some done)).set name (some (done ++ [b])), none⟩ = _
    rw [Volume.set_set, ih, List.append_assoc]
    rfl

/-- **A file that is written without interruption is written.** -/
theorem writeFile_whole (name : N) (bytes : List UInt8) (v : Volume N T) :
    (writeFile name bytes : Steps N T ε Unit) ⟨v, none⟩ =
      (.ok (), ⟨v.set name (some bytes), none⟩) :=
  writeFrom_whole name [] bytes v

theorem alive_writeFile (name : N) (bytes : List UInt8) :
    Keeps (fun s => s.left = none) (writeFile name bytes : Steps N T ε Unit) := by
  rintro ⟨v, _⟩ rfl
  rw [writeFile_whole]

/-- **A file that is written whole** has to be as its name wants it. -/
theorem keeps_writeFile_whole {G : N → List UInt8 → Prop} {name : N} {bytes : List UInt8}
    (h : G name bytes) :
    Keeps (Unhurt (Everywhere G)) (writeFile name bytes : Steps N T ε Unit) := by
  rintro ⟨v, _⟩ ⟨rfl, hv⟩
  rw [writeFile_whole]
  exact ⟨rfl, hv.write h⟩

theorem Completes.writeFile_bind_iff {name : N} {bytes : List UInt8} {v : Volume N T}
    {f : Unit → Steps N T ε β} {S : β → Volume N T → Prop} :
    Completes (writeFile name bytes >>= f) v S ↔ Completes (f ()) (v.set name (some bytes)) S :=
  Completes.bind_iff (writeFile_whole name bytes v)

theorem Completes.writeFile_iff {name : N} {bytes : List UInt8} {v : Volume N T}
    {R : Unit → Volume N T → Prop} :
    Completes (writeFile name bytes : Steps N T ε Unit) v R ↔
      R () (v.set name (some bytes)) := by
  unfold Completes
  rw [writeFile_whole]
  exact Completes.pure_iff

end Files

end CrashFiles
