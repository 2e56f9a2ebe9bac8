import Mathlib.Logic.Basic
import Mathlib.Data.List.Basic

/-!
# Programs over a persistent store

A program runs on a store it may change, and ends in one of three ways: it
returns a value, it fails with an error, or the process running it dies.
The store survives all three. A failure unwinds through `bind` and can be
caught (`Program.result`); a crash unwinds to the top and cannot.

Reasoning is by triples. `Program.Triple P x Q` says that from a store
satisfying `P` the program `x` ends in an exit and a store related by `Q`;
the postcondition speaks of all three exits, since what a store looks like
after a failure or a crash is as much a fact about the program as what it
looks like after success. `Program.Keeps I x` is the common case of an
invariant that every exit preserves.
-/

/-- How a program ends: with a value, with an error, or not at all because the process died. -/
inductive Exit (ε α : Type) where
  /-- It returned a value. -/
  | ok (a : α)
  /-- It failed. -/
  | err (e : ε)
  /-- The process died. -/
  | crash
  deriving DecidableEq, Repr

/-- A program over a store `σ`, failing with an `ε` or returning an `α`. -/
def Program (σ ε α : Type) : Type := σ → Exit ε α × σ

namespace Program

variable {σ ε α β : Type}

/-- What runs after an exit: the continuation after a value, nothing after a
failure or a crash. -/
def andThen (f : α → Program σ ε β) : Exit ε α × σ → Exit ε β × σ
  | (.ok a, s) => f a s
  | (.err e, s) => (.err e, s)
  | (.crash, s) => (.crash, s)

instance : Monad (Program σ ε) where
  pure a := fun s => (.ok a, s)
  bind x f := fun s => andThen f (x s)

/-- Fail with an error, and leave the store as it is. -/
def throw (e : ε) : Program σ ε α := fun s => (.err e, s)

/-- The process dies here; whatever was stored stays, and no code runs after it. -/
def die : Program σ ε α := fun s => (.crash, s)

/-- Read the store, as it is at this point. -/
def get : Program σ ε σ := fun s => (.ok s, s)

/-- Change the store, in one step that cannot fail. -/
def modify (f : σ → σ) : Program σ ε Unit := fun s => (.ok (), f s)

/-- Do something only under a condition, and otherwise nothing. -/
def whenever (c : Prop) [Decidable c] (x : Program σ ε Unit) : Program σ ε Unit :=
  if c then x else pure ()

/-- An `Except` as a program that leaves the store alone: it either gives its value or
fails, and reads nothing of the store. -/
def ofExcept : Except ε α → Program σ ε α
  | .ok a => pure a
  | .error e => throw e

/-- Run a program and hand its outcome on as a value, so that a failure can
be inspected. A crash is not an outcome anything can inspect. -/
def result (x : Program σ ε α) : Program σ ε (Except ε α) := fun s =>
  match x s with
  | (.ok a, s') => (.ok (.ok a), s')
  | (.err e, s') => (.ok (.error e), s')
  | (.crash, s') => (.crash, s')

@[simp] theorem pure_apply (a : α) (s : σ) :
    (pure a : Program σ ε α) s = (.ok a, s) := rfl

@[simp] theorem throw_apply (e : ε) (s : σ) :
    (throw e : Program σ ε α) s = (.err e, s) := rfl

@[simp] theorem die_apply (s : σ) : (die : Program σ ε α) s = (.crash, s) := rfl

@[simp] theorem get_apply (s : σ) : (get : Program σ ε σ) s = (.ok s, s) := rfl

@[simp] theorem modify_apply (f : σ → σ) (s : σ) :
    (modify f : Program σ ε Unit) s = (.ok (), f s) := rfl

@[simp] theorem ofExcept_ok (a : α) (s : σ) :
    (ofExcept (.ok a) : Program σ ε α) s = (.ok a, s) := rfl

@[simp] theorem ofExcept_error (e : ε) (s : σ) :
    (ofExcept (.error e) : Program σ ε α) s = (.err e, s) := rfl

@[simp] theorem andThen_ok (f : α → Program σ ε β) (a : α) (s : σ) :
    andThen f (.ok a, s) = f a s := rfl

@[simp] theorem andThen_err (f : α → Program σ ε β) (e : ε) (s : σ) :
    andThen f (.err e, s) = (.err e, s) := rfl

@[simp] theorem andThen_crash (f : α → Program σ ε β) (s : σ) :
    andThen f (.crash, s) = (.crash, s) := rfl

theorem whenever_true {c : Prop} [Decidable c] (h : c) (x : Program σ ε Unit) :
    whenever c x = x := if_pos h

theorem whenever_false {c : Prop} [Decidable c] (h : ¬ c) (x : Program σ ε Unit) :
    whenever c x = pure () := if_neg h

theorem bind_apply (x : Program σ ε α) (f : α → Program σ ε β) (s : σ) :
    (x >>= f) s = andThen f (x s) := rfl

/-- A program whose first part returned goes on from there. -/
theorem bind_of_ok {x : Program σ ε α} {f : α → Program σ ε β} {s s' : σ} {a : α}
    (h : x s = (.ok a, s')) : (x >>= f) s = f a s' := by
  rw [bind_apply, h]
  rfl

/-- **A sequence returns only through its parts.** -/
theorem bind_eq_ok {x : Program σ ε α} {f : α → Program σ ε β} {s s' : σ} {b : β}
    (h : (x >>= f) s = (.ok b, s')) :
    ∃ a s₁, x s = (.ok a, s₁) ∧ f a s₁ = (.ok b, s') := by
  rw [bind_apply] at h
  rcases hx : x s with ⟨a | e | _, s₁⟩
  · rw [hx] at h
    exact ⟨a, s₁, rfl, h⟩
  · rw [hx] at h
    exact absurd (congrArg Prod.fst h) (by simp [andThen])
  · rw [hx] at h
    exact absurd (congrArg Prod.fst h) (by simp [andThen])

/-! ## Triples -/

/-- From a store satisfying `P`, the program ends in an exit and a store
related by `Q`. -/
def Triple (P : σ → Prop) (x : Program σ ε α) (Q : Exit ε α → σ → Prop) : Prop :=
  ∀ s, P s → Q (x s).1 (x s).2

/-- A postcondition for a program that owes something about its value only
when it returns one, and `I` however it ends. -/
def Returns (I : σ → Prop) (R : α → σ → Prop) : Exit ε α → σ → Prop
  | .ok a, s => I s ∧ R a s
  | .err _, s => I s
  | .crash, s => I s

/-- However it ended, `I`. -/
theorem Returns.inv {I : σ → Prop} {R : α → σ → Prop} {r : Exit ε α} {s : σ}
    (h : Returns I R r s) : I s := by
  cases r with
  | ok a => exact h.1
  | err e => exact h
  | crash => exact h

namespace Triple

variable {P P' : σ → Prop} {x : Program σ ε α} {Q Q' : Exit ε α → σ → Prop}

theorem pure {a : α} (h : ∀ s, P s → Q (.ok a) s) :
    Triple P (pure a : Program σ ε α) Q := h

theorem throw {e : ε} (h : ∀ s, P s → Q (.err e) s) :
    Triple P (Program.throw e : Program σ ε α) Q := h

theorem die (h : ∀ s, P s → Q .crash s) :
    Triple P (Program.die : Program σ ε α) Q := h

theorem get {Q : Exit ε σ → σ → Prop} (h : ∀ s, P s → Q (.ok s) s) :
    Triple P (Program.get : Program σ ε σ) Q := h

theorem modify {f : σ → σ} {Q : Exit ε Unit → σ → Prop}
    (h : ∀ s, P s → Q (.ok ()) (f s)) :
    Triple P (Program.modify f : Program σ ε Unit) Q := h

/-- Weaken what is owed, strengthen what is given. -/
theorem conseq (h : Triple P x Q) (hP : ∀ s, P' s → P s)
    (hQ : ∀ r s, Q r s → Q' r s) : Triple P' x Q' :=
  fun s hs => hQ _ _ (h s (hP s hs))

theorem post (h : Triple P x Q) (hQ : ∀ r s, Q r s → Q' r s) : Triple P x Q' :=
  h.conseq (fun _ => id) hQ

theorem and (h : Triple P x Q) (h' : Triple P x Q') :
    Triple P x (fun r s => Q r s ∧ Q' r s) :=
  fun s hs => ⟨h s hs, h' s hs⟩

/-- **Sequencing.** The first program's postcondition is the second's
precondition after a value, and the whole's postcondition otherwise. -/
theorem bind {f : α → Program σ ε β} {R : Exit ε α → σ → Prop}
    {Q : Exit ε β → σ → Prop} (hx : Triple P x R)
    (hf : ∀ a, Triple (R (.ok a)) (f a) Q)
    (herr : ∀ e s, R (.err e) s → Q (.err e) s)
    (hcrash : ∀ s, R .crash s → Q .crash s) : Triple P (x >>= f) Q := by
  intro s hs
  have h := hx s hs
  show Q (andThen f (x s)).1 (andThen f (x s)).2
  rcases hxs : x s with ⟨a | e | _, s'⟩
  · rw [hxs] at h
    exact hf a s' h
  · rw [hxs] at h
    exact herr e s' h
  · rw [hxs] at h
    exact hcrash s' h

theorem ite {c : Prop} [Decidable c] {y : Program σ ε α}
    (ht : c → Triple P x Q) (hf : ¬ c → Triple P y Q) :
    Triple P (if c then x else y) Q := by
  by_cases hc : c
  · rw [if_pos hc]
    exact ht hc
  · rw [if_neg hc]
    exact hf hc

/-- A value that is owed something. -/
theorem pure_returns {I : σ → Prop} {R : α → σ → Prop} {a : α}
    (h : ∀ s, P s → I s ∧ R a s) :
    Triple P (Pure.pure a : Program σ ε α) (Returns I R) := h

theorem throw_returns {I : σ → Prop} {R : α → σ → Prop} {e : ε} (h : ∀ s, P s → I s) :
    Triple P (Program.throw e : Program σ ε α) (Returns I R) := h

theorem modify_returns {I : σ → Prop} {R : Unit → σ → Prop} {f : σ → σ}
    (h : ∀ s, P s → I (f s) ∧ R () (f s)) :
    Triple P (Program.modify f : Program σ ε Unit) (Returns I R) := h

/-- **Sequencing**, when the first program owes `I` however it ends. -/
theorem bind_returns {f : α → Program σ ε β} {I J : σ → Prop} {R : α → σ → Prop}
    {S : β → σ → Prop} (hx : Triple P x (Returns I R)) (hIJ : ∀ s, I s → J s)
    (hf : ∀ a, Triple (fun s => I s ∧ R a s) (f a) (Returns J S)) :
    Triple P (x >>= f) (Returns J S) :=
  bind hx hf (fun _ s h => hIJ s h) hIJ

/-- Sequencing, when what the first program owes of its value does not mention
the store. -/
theorem bind_value {f : α → Program σ ε β} {I J : σ → Prop} {R : α → Prop}
    {S : β → σ → Prop} (hx : Triple P x (Returns I fun a _ => R a))
    (hIJ : ∀ s, I s → J s) (hf : ∀ a, R a → Triple I (f a) (Returns J S)) :
    Triple P (x >>= f) (Returns J S) :=
  bind_returns hx hIJ fun a s h => hf a h.2 s h.1

theorem ofExcept_returns (r : Except ε α) :
    Triple P (ofExcept r : Program σ ε α) (Returns P fun a _ => r = .ok a) := by
  intro s hs
  cases r with
  | ok a => exact ⟨hs, rfl⟩
  | error e => exact hs

/-- Catching a failure turns the exit it was into the value it is. -/
theorem result {Q : Exit ε (Except ε α) → σ → Prop}
    (h : Triple P x (fun r s => match r with
      | .ok a => Q (.ok (.ok a)) s
      | .err e => Q (.ok (.error e)) s
      | .crash => Q .crash s)) : Triple P (Program.result x) Q := by
  intro s hs
  have hx := h s hs
  unfold Program.result
  rcases hxs : x s with ⟨a | e | _, s'⟩ <;> · rw [hxs] at hx; exact hx

end Triple

/-! ## Invariants -/

/-- Every exit of the program preserves `I`, an error's and a crash's included. -/
def Keeps (I : σ → Prop) (x : Program σ ε α) : Prop :=
  Triple I x (fun _ s => I s)

namespace Keeps

variable {I : σ → Prop} {x : Program σ ε α}

theorem pure (a : α) : Keeps I (pure a : Program σ ε α) := fun _ h => h

theorem throw (e : ε) : Keeps I (Program.throw e : Program σ ε α) := fun _ h => h

theorem die : Keeps I (Program.die : Program σ ε α) := fun _ h => h

theorem get : Keeps I (Program.get : Program σ ε σ) := fun _ h => h

theorem modify {f : σ → σ} (h : ∀ s, I s → I (f s)) :
    Keeps I (Program.modify f : Program σ ε Unit) := h

theorem ofExcept (r : Except ε α) : Keeps I (Program.ofExcept r : Program σ ε α) := by
  cases r with
  | ok a => exact pure a
  | error e => exact throw e

theorem bind {f : α → Program σ ε β} (hx : Keeps I x) (hf : ∀ a, Keeps I (f a)) :
    Keeps I (x >>= f) :=
  Triple.bind hx hf (fun _ _ h => h) (fun _ h => h)

/-- Sequencing, when the first program owes something about its value. -/
theorem bind_returns {f : α → Program σ ε β} {R : α → σ → Prop}
    (hx : Triple I x (Returns I R))
    (hf : ∀ a, Triple (fun s => I s ∧ R a s) (f a) (fun _ s => I s)) : Keeps I (x >>= f) :=
  Triple.bind hx hf (fun _ _ h => h) (fun _ h => h)

/-- What follows an `Except` runs when there is a value. -/
theorem ofExcept_bind {r : Except ε α} {f : α → Program σ ε β}
    (hf : ∀ a, r = .ok a → Keeps I (f a)) : Keeps I (Program.ofExcept r >>= f) := by
  cases r with
  | ok a => exact hf a rfl
  | error e => exact throw e

theorem ite {c : Prop} [Decidable c] {y : Program σ ε α} (hx : Keeps I x)
    (hy : Keeps I y) : Keeps I (if c then x else y) :=
  Triple.ite (fun _ => hx) (fun _ => hy)

theorem whenever {c : Prop} [Decidable c] {x : Program σ ε Unit} (hx : c → Keeps I x) :
    Keeps I (Program.whenever c x) :=
  Triple.ite hx (fun _ => pure ())

theorem result (hx : Keeps I x) : Keeps I (Program.result x) :=
  Triple.result (hx.post (fun r _ h => by cases r <;> exact h))

/-- What each step of a loop preserves, the loop preserves. -/
theorem foldlM {γ : Type} {f : β → γ → Program σ ε β} (hf : ∀ b c, Keeps I (f b c))
    (l : List γ) (b : β) : Keeps I (l.foldlM f b) := by
  induction l generalizing b with
  | nil => exact pure b
  | cons c l ih =>
    rw [List.foldlM_cons]
    exact bind (hf b c) ih

end Keeps

/-- **The loop rule.** A relation between the loop's value and the store that
holds when the loop starts and that every step preserves holds when the loop
returns; a step that fails or dies owes `E` instead. -/
theorem Triple.foldlM {γ : Type} {J : β → σ → Prop} {E : Exit ε β → σ → Prop}
    {f : β → γ → Program σ ε β} (l : List γ)
    (hf : ∀ b, ∀ c ∈ l, Triple (J b) (f b c) (fun r s => match r with
      | .ok b' => J b' s
      | r => E r s)) (b : β) :
    Triple (J b) (l.foldlM f b) (fun r s => match r with
      | .ok b' => J b' s
      | r => E r s) := by
  induction l generalizing b with
  | nil => exact fun s hs => hs
  | cons c l ih =>
    rw [List.foldlM_cons]
    refine Triple.bind (hf b c List.mem_cons_self) (fun b' => ?_)
      (fun e s h => h) (fun s h => h)
    exact ih (fun b'' c' hc' => hf b'' c' (List.mem_cons_of_mem c hc')) b'

/-- **What every step of a traversal relates, the traversal relates**, however it
ends, if the relation composes and what it says of a list it says of every longer one. -/
theorem forM_relates {γ : Type} {R : List γ → σ → σ → Prop} {f : γ → Program σ ε Unit}
    (hnil : ∀ s, R [] s s) (hmore : ∀ c cs s s', R [c] s s' → R (c :: cs) s s')
    (hcons : ∀ c cs s s₁ s', R [c] s s₁ → R cs s₁ s' → R (c :: cs) s s')
    (hstep : ∀ c s, R [c] s (f c s).2) (cs : List γ) (s : σ) : R cs s (cs.forM f s).2 := by
  induction cs generalizing s with
  | nil => exact hnil s
  | cons c cs ih =>
    have hc := hstep c s
    show R (c :: cs) s (andThen (fun _ => cs.forM f) (f c s)).2
    generalize f c s = r at hc ⊢
    rcases r with ⟨u | e | _, s₁⟩
    · exact hcons c cs s s₁ _ hc (ih s₁)
    · exact hmore c cs s s₁ hc
    · exact hmore c cs s s₁ hc

theorem Keeps.forM {γ : Type} {I : σ → Prop} {f : γ → Program σ ε Unit} (cs : List γ)
    (hf : ∀ c ∈ cs, Keeps I (f c)) : Keeps I (cs.forM f) := by
  induction cs with
  | nil => exact Keeps.pure ()
  | cons c cs ih =>
    exact Keeps.bind (hf c List.mem_cons_self) fun _ =>
      ih fun c' hc' => hf c' (List.mem_cons_of_mem c hc')

/-! ## Parts of a store -/

/-- A program does to a part of its store what another program does to that part alone. -/
def Projects {τ : Type} (π : σ → τ) (x : Program σ ε α) (y : Program τ ε α) : Prop :=
  ∀ s, ((x s).1, π (x s).2) = y (π s)

namespace Projects

variable {τ : Type} {π : σ → τ}

theorem pure (a : α) :
    Projects π (pure a : Program σ ε α) (pure a : Program τ ε α) := fun _ => rfl

theorem bind {x : Program σ ε α} {y : Program τ ε α} {f : α → Program σ ε β}
    {g : α → Program τ ε β} (hx : Projects π x y) (hf : ∀ a, Projects π (f a) (g a)) :
    Projects π (x >>= f) (y >>= g) := by
  intro s
  have h := hx s
  rw [bind_apply, bind_apply, ← h]
  rcases x s with ⟨a | e | _, s₁⟩
  · exact hf a s₁
  · rfl
  · rfl

theorem forM {γ : Type} {f : γ → Program σ ε Unit} {g : γ → Program τ ε Unit}
    (hf : ∀ c, Projects π (f c) (g c)) (cs : List γ) :
    Projects π (cs.forM f) (cs.forM g) := by
  induction cs with
  | nil => exact pure ()
  | cons c cs ih => exact bind (hf c) fun _ => ih

theorem throw (e : ε) :
    Projects π (Program.throw e : Program σ ε α) (Program.throw e) := fun _ => rfl

/-- What is read of the store may be read of its part. -/
theorem get_bind {f : σ → Program σ ε β} {g : τ → Program τ ε β}
    (h : ∀ s, Projects π (f s) (g (π s))) : Projects π (get >>= f) (get >>= g) :=
  fun s => h s s

theorem ite {c : Prop} [Decidable c] {x x' : Program σ ε α} {y y' : Program τ ε α}
    (hx : c → Projects π x y) (hx' : ¬ c → Projects π x' y') :
    Projects π (if c then x else x') (if c then y else y') := by
  by_cases hc : c
  · rw [if_pos hc, if_pos hc]
    exact hx hc
  · rw [if_neg hc, if_neg hc]
    exact hx' hc

theorem result {x : Program σ ε α} {y : Program τ ε α} (h : Projects π x y) :
    Projects π (Program.result x) (Program.result y) := by
  intro s
  have hs := h s
  unfold Program.result
  rw [← hs]
  rcases x s with ⟨a | e | _, s'⟩ <;> rfl

/-! ### Beside the part -/

/-- What is done beside the part may be done at any time. -/
theorem modify_beside {f : σ → σ} (h : ∀ s, π (f s) = π s) :
    Projects π (Program.modify f : Program σ ε Unit) (Pure.pure ()) :=
  fun s => congrArg (Prod.mk _) (h s)

theorem bind_beside {u : Program σ ε Unit} {f : Unit → Program σ ε α} {y : Program τ ε α}
    (hu : Projects π u (Pure.pure ())) (hf : Projects π (f ()) y) :
    Projects π (u >>= f) y :=
  bind (g := fun _ => y) hu fun _ => hf

theorem get_bind_beside {f : σ → Program σ ε α} {y : Program τ ε α}
    (hf : ∀ s, Projects π (f s) y) : Projects π (get >>= f) y := fun s => hf s s

theorem whenever_beside {c : Prop} [Decidable c] {u : Program σ ε Unit}
    (hu : Projects π u (Pure.pure ())) : Projects π (whenever c u) (Pure.pure ()) := by
  intro s
  unfold whenever
  split
  · exact hu s
  · rfl

theorem forM_beside {γ : Type} {f : γ → Program σ ε Unit}
    (hf : ∀ c, Projects π (f c) (Pure.pure ())) (cs : List γ) :
    Projects π (cs.forM f) (Pure.pure ()) := by
  induction cs with
  | nil => exact pure ()
  | cons c cs ih => exact bind_beside (hf c) ih

end Projects

end Program
