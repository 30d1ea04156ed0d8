import Mathlib.Tactic.TypeStar

/-! Computations that change a state and may fail on the way, with the changes made so far. -/
namespace Agend.Library

def Effect (σ ε α : Type*) := σ → Except ε α × σ

namespace Effect

variable {σ ε α β : Type}

protected def pure (a : α) : Effect σ ε α := fun s => (.ok a, s)

protected def bind (x : Effect σ ε α) (f : α → Effect σ ε β) : Effect σ ε β := fun s =>
  match x s with
  | (.ok a, s') => f a s'
  | (.error e, s') => (.error e, s')

instance : Monad (Effect σ ε) where
  pure := Effect.pure
  bind := Effect.bind

def fail (e : ε) : Effect σ ε α := fun s => (.error e, s)

def read : Effect σ ε σ := fun s => (.ok s, s)

def modify (f : σ → σ) : Effect σ ε Unit := fun s => (.ok (), f s)

/-- Goes on only when `p` holds. -/
def check (p : Bool) (e : ε) : Effect σ ε Unit := if p then pure () else fail e

def doIf (p : Bool) (x : Effect σ ε Unit) : Effect σ ε Unit := if p then x else pure ()

def forEach (f : α → Effect σ ε Unit) : List α → Effect σ ε Unit
  | [] => pure ()
  | a :: rest => do
    f a
    forEach f rest

/-- From `P`, a result comes with `Q`, and an error with `E`. -/
def Holds (P : σ → Prop) (x : Effect σ ε α) (Q : α → σ → Prop) (E : σ → Prop) : Prop :=
  ∀ s, P s → (∀ a s', x s = (.ok a, s') → Q a s') ∧ ∀ e s', x s = (.error e, s') → E s'

variable {P P' E E' : σ → Prop} {Q Q' : α → σ → Prop} {x : Effect σ ε α}

theorem Holds.weaken (h : Holds P x Q E) (hP : ∀ s, P' s → P s) (hQ : ∀ a s, Q a s → Q' a s)
    (hE : ∀ s, E s → E' s) : Holds P' x Q' E' := by
  intro s hs
  have hx := h s (hP s hs)
  constructor
  · intro a s' hrun
    exact hQ a s' (hx.1 a s' hrun)
  · intro e s' hrun
    exact hE s' (hx.2 e s' hrun)

theorem holds_pure {a : α} (h : ∀ s, P s → Q a s) : Holds P (pure a : Effect σ ε α) Q E := by
  intro s hs
  constructor
  · intro b s' hrun
    cases hrun
    exact h s hs
  · intro e s' hrun
    cases hrun

theorem holds_fail {e : ε} (h : ∀ s, P s → E s) : Holds P (fail e : Effect σ ε α) Q E := by
  intro s hs
  constructor
  · intro b s' hrun
    cases hrun
  · intro e s' hrun
    cases hrun
    exact h s hs

/-- What is read is the state. -/
theorem holds_read : Holds P (read : Effect σ ε σ) (fun a s => a = s ∧ P s) E := by
  intro s hs
  constructor
  · intro b s' hrun
    cases hrun
    exact ⟨rfl, hs⟩
  · intro e s' hrun
    cases hrun

theorem holds_modify {f : σ → σ} {R : σ → Prop} (h : ∀ s, P s → R (f s)) :
    Holds P (modify f : Effect σ ε Unit) (fun _ => R) E := by
  intro s hs
  constructor
  · intro b s' hrun
    cases hrun
    exact h s hs
  · intro e s' hrun
    cases hrun

theorem Holds.bind {f : α → Effect σ ε β} {R : β → σ → Prop} (hx : Holds P x Q E)
    (hf : ∀ a, Holds (Q a) (f a) R E) : Holds P (x >>= f) R E := by
  intro s hs
  have hfirst := hx s hs
  change (∀ b s', Effect.bind x f s = (.ok b, s') → R b s') ∧
    ∀ e s', Effect.bind x f s = (.error e, s') → E s'
  unfold Effect.bind
  cases hrun : x s with
  | mk result s1 =>
    cases result with
    | ok a => exact hf a s1 (hfirst.1 a s1 hrun)
    | error e =>
      constructor
      · intro b s' heq
        cases heq
      · intro e' s' heq
        cases heq
        exact hfirst.2 e s1 hrun

theorem holds_check {p : Bool} {e : ε} (h : ∀ s, P s → E s) :
    Holds P (check p e) (fun _ => P) E := by
  cases p with
  | false => exact holds_fail h
  | true => exact holds_pure fun _ hs => hs

/-- A loop keeps what each of its turns keeps, with the members that are still to come. -/
theorem holds_forEach {f : α → Effect σ ε Unit} {I : List α → σ → Prop}
    (hstep : ∀ a rest, Holds (I (a :: rest)) (f a) (fun _ => I rest) E) (l : List α) :
    Holds (I l) (forEach f l) (fun _ => I []) E := by
  induction l with
  | nil => exact holds_pure fun _ hs => hs
  | cons a rest ih => exact (hstep a rest).bind fun _ => ih

theorem holds_doIf {p : Bool} {x : Effect σ ε Unit} (h : Holds P x (fun _ => P) E) :
    Holds P (doIf p x) (fun _ => P) E := by
  cases p with
  | false => exact holds_pure fun _ hs => hs
  | true => exact h

end Effect

end Agend.Library
