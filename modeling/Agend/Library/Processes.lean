import Agend.Library.Program

/-! Processes that run programs on one world, taking turns at any call, and a rule that proves each
of them alone against what the others may do. -/
namespace Agend.Library

variable {σ ε : Type} {I : Interface σ ε} {α β : Type}

/-- What holds of the world between calls, what process `i` relies on while the others move, what
the environment promises, and what process `i` owes when it makes a call. -/
structure Pact (I : Interface σ ε) where
  safe : σ → Prop
  rely : Nat → σ → σ → Prop
  refl : ∀ i s, rely i s s
  trans : ∀ i s s' s'', rely i s s' → rely i s' s'' → rely i s s''
  assumes : σ → I.Call → I.Answer → Prop
  duty : Nat → σ → I.Call → I.Answer → Prop

/-- From `s`, every call of the program does its duty, wherever the others moved the world before
it, and what the program leaves satisfies `Q` from then on. -/
def Runs (P : Pact I) (i : Nat) : Program I α → (Except ε α → σ → Prop) → σ → Prop
  | .done r, Q, s => ∀ s', P.rely i s s' → P.safe s' → Q r s'
  | .call c next, Q, s => ∀ s', P.rely i s s' → P.safe s' → ∀ a, P.assumes s' c a →
      P.duty i s' c a ∧ Runs P i (next (I.exec c a s').1) Q (I.exec c a s').2

namespace Runs

variable {P : Pact I} {i : Nat} {p : Program I α} {f : α → Program I β} {s s' : σ}
  {Q R : Except ε α → σ → Prop} {T : Except ε β → σ → Prop}

theorem moved (hp : Runs P i p Q s) (h : P.rely i s s') : Runs P i p Q s' := by
  cases p with
  | done r => exact fun s'' h' => hp s'' (P.trans i _ _ _ h h')
  | call c next => exact fun s'' h' => hp s'' (P.trans i _ _ _ h h')

/-- What the others do first may be assumed done. -/
theorem settle (h : ∀ s', P.rely i s s' → P.safe s' → Runs P i p Q s') : Runs P i p Q s := by
  cases p with
  | done r => exact fun s' hs' hsafe => h s' hs' hsafe s' (P.refl i s') hsafe
  | call c next => exact fun s' hs' hsafe => h s' hs' hsafe s' (P.refl i s') hsafe

theorem mono (hp : Runs P i p Q s) (h : ∀ r s', P.safe s' → Q r s' → R r s') :
    Runs P i p R s := by
  induction p generalizing s with
  | done r => exact fun s' hs' hsafe => h r s' hsafe (hp s' hs' hsafe)
  | call c next ih =>
    intro s' hs' hsafe a ha
    obtain ⟨hd, hrest⟩ := hp s' hs' hsafe a ha
    exact ⟨hd, ih _ hrest⟩

/-- One program after another. -/
theorem bind (hp : Runs P i p R s)
    (ok : ∀ a s', P.safe s' → R (.ok a) s' → Runs P i (f a) T s')
    (fail : ∀ e s', P.safe s' → R (.error e) s' → T (.error e) s') :
    Runs P i (p >>= f) T s := by
  induction p generalizing s with
  | done r =>
    cases r with
    | ok a => exact settle fun s' hs' hsafe => ok a s' hsafe (hp s' hs' hsafe)
    | error e => exact fun s' hs' hsafe => fail e s' hsafe (hp s' hs' hsafe)
  | call c next ih =>
    intro s' hs' hsafe a ha
    obtain ⟨hd, hrest⟩ := hp s' hs' hsafe a ha
    exact ⟨hd, ih _ hrest⟩

theorem ask {c : I.Call} {Q : Except ε (I.Reply c) → σ → Prop}
    (h : ∀ s', P.rely i s s' → P.safe s' → ∀ a, P.assumes s' c a → P.duty i s' c a ∧
      ∀ s'', P.rely i (I.exec c a s').2 s'' → P.safe s'' → Q (I.exec c a s').1 s'') :
    Runs P i (Program.ask c) Q s :=
  h

theorem orRaiseThen {o : Option α} {e : ε} (ok : ∀ a, o = some a → Runs P i (f a) T s)
    (fail : o = none → ∀ s', P.rely i s s' → P.safe s' → T (.error e) s') :
    Runs P i (Program.orRaise o e >>= f) T s := by
  cases o with
  | some a => exact ok a rfl
  | none => exact fail rfl

theorem checkThen {b : Bool} {e : ε} {f : Unit → Program I β}
    (ok : b = true → Runs P i (f ()) T s)
    (fail : b = false → ∀ s', P.rely i s s' → P.safe s' → T (.error e) s') :
    Runs P i (Program.check b e >>= f) T s := by
  cases b with
  | true => exact ok rfl
  | false => exact fail rfl

/-- A caught error is a result like any other. -/
theorem attempt {U : Except ε (Except ε α) → σ → Prop}
    (hp : Runs P i p (fun r s' => U (.ok r) s') s) : Runs P i p.attempt U s := by
  induction p generalizing s with
  | done r => exact hp
  | call c next ih =>
    intro s' hs' hsafe a ha
    obtain ⟨hd, hrest⟩ := hp s' hs' hsafe a ha
    exact ⟨hd, ih _ hrest⟩

end Runs

/-- What every call of process `i` keeps, and what the others keep for it. -/
structure Scope (P : Pact I) (i : Nat) where
  stays : σ → σ → Prop
  trans : ∀ s s' s'', stays s s' → stays s' s'' → stays s s''
  rely : ∀ s s', P.rely i s s' → stays s s'

/-- The program stays in its scope, and `Q` holds when it succeeds. -/
def Leaves {P : Pact I} {i : Nat} (S : Scope P i) (p : Program I α) (Q : α → σ → Prop) (s : σ) :
    Prop :=
  Runs P i p (After (fun a s' => S.stays s s' ∧ Q a s') fun _ s' => S.stays s s') s

namespace Leaves

variable {P : Pact I} {i : Nat} {S : Scope P i} {p : Program I α} {f : α → Program I β} {s s₀ : σ}
  {Q R : α → σ → Prop} {T : β → σ → Prop}

theorem refl (S : Scope P i) (s : σ) : S.stays s s := S.rely s s (P.refl i s)

theorem mono (hp : Leaves S p Q s)
    (h : ∀ a s', P.safe s' → S.stays s s' → Q a s' → R a s') : Leaves S p R s := by
  refine Runs.mono hp fun r s' hsafe hr => ?_
  cases r with
  | ok a =>
    obtain ⟨hstays, hq⟩ := hr
    exact ⟨hstays, h a s' hsafe hstays hq⟩
  | error e => exact hr

/-- What stays in scope from `s` does so from where `s` came from. -/
theorem widen (hp : Leaves S p Q s) (h : S.stays s₀ s) :
    Runs P i p (After (fun a s' => S.stays s₀ s' ∧ Q a s') fun _ s' => S.stays s₀ s') s := by
  refine Runs.mono hp fun r s' _ hr => ?_
  cases r with
  | ok a => exact ⟨S.trans _ _ _ h hr.1, hr.2⟩
  | error e => exact S.trans _ _ _ h hr

theorem pure {a : α} (h : ∀ s', P.rely i s s' → P.safe s' → Q a s') :
    Leaves S (Pure.pure a : Program I α) Q s :=
  fun s' hs' hsafe => ⟨S.rely s s' hs', h s' hs' hsafe⟩

/-- What runs after a program that stayed in scope. -/
theorem andThen {U : Except ε β → σ → Prop} (hp : Leaves S p Q s)
    (ok : ∀ a s', P.safe s' → S.stays s s' → Q a s' → Runs P i (f a) U s')
    (fail : ∀ e s', P.safe s' → S.stays s s' → U (.error e) s') : Runs P i (p >>= f) U s :=
  Runs.bind hp (fun a s' hsafe h => ok a s' hsafe h.1 h.2) fun e s' hsafe h => fail e s' hsafe h

theorem bind (hp : Leaves S p Q s)
    (ok : ∀ a s', P.safe s' → S.stays s s' → Q a s' → Leaves S (f a) T s') :
    Leaves S (p >>= f) T s :=
  hp.andThen (fun a s' hsafe hstays hq => (ok a s' hsafe hstays hq).widen hstays)
    fun _ _ _ hstays => hstays

theorem discard (hp : Leaves S p Q s) :
    Leaves S (p >>= fun _ => Pure.pure ()) (fun _ _ => True) s :=
  hp.bind fun _ _ _ _ _ => pure fun _ _ _ => trivial

theorem attempt (hp : Leaves S p Q s) :
    Leaves S p.attempt (fun r s' => ∀ a, r = .ok a → Q a s') s := by
  refine Runs.attempt (Runs.mono hp fun r s' _ hr => ?_)
  cases r with
  | ok a => exact ⟨hr.1, fun a' ha' => Except.ok.inj ha' ▸ hr.2⟩
  | error e => exact ⟨hr, fun a' ha' => by cases ha'⟩

theorem check {b : Bool} {e : ε} :
    Leaves S (Program.check b e : Program I Unit) (fun _ _ => True) s := by
  cases b with
  | true => exact fun s' hs' _ => ⟨S.rely s s' hs', trivial⟩
  | false => exact fun s' hs' _ => S.rely s s' hs'

theorem checkThen {b : Bool} {e : ε} {f : Unit → Program I β}
    (ok : b = true → Leaves S (f ()) T s) : Leaves S (Program.check b e >>= f) T s :=
  Runs.checkThen ok fun _ s' hs' _ => S.rely s s' hs'

theorem orRaiseThen {o : Option α} {e : ε} (ok : ∀ a, o = some a → Leaves S (f a) T s) :
    Leaves S (Program.orRaise o e >>= f) T s :=
  Runs.orRaiseThen ok fun _ s' hs' _ => S.rely s s' hs'

/-- The loop rule: a round that may start wherever the loop stayed in scope. -/
theorem forEach {f : α → Program I Unit} {l : List α} (hs : P.safe s)
    (round : ∀ a ∈ l, ∀ s', P.safe s' → S.stays s s' → Leaves S (f a) (fun _ _ => True) s') :
    Leaves S (Program.forEach f l) (fun _ _ => True) s := by
  induction l generalizing s with
  | nil => exact pure fun _ _ _ => trivial
  | cons a rest ih =>
    refine (round a List.mem_cons_self s hs (refl S s)).bind fun _ s' hsafe hstays _ => ?_
    refine ih hsafe fun a' ha' s'' hsafe' hstays' => ?_
    exact round a' (List.mem_cons_of_mem _ ha') s'' hsafe' (S.trans _ _ _ hstays hstays')

end Leaves

/-- The programs that processes run, and what the end of a process does to the world. -/
structure System (I : Interface σ ε) where
  Task : Type
  main : Nat → Task → Program I Unit
  leave : Nat → σ → σ

structure Pool (I : Interface σ ε) where
  world : σ
  procs : Nat → Option (Program I Unit)

/-- A process starts; it makes its next call; or it ends, done or not. -/
inductive Pool.Turn (I : Interface σ ε) (τ : Type) where
  | start (i : Nat) (task : τ)
  | act (i : Nat) (a : I.Answer)
  | leave (i : Nat)

namespace System

variable (S : System I)

def advance (p : Pool I) : Pool.Turn I S.Task → Option (Pool I)
  | .start i task =>
    match p.procs i with
    | none => some ⟨p.world, Function.update p.procs i (some (S.main i task))⟩
    | some _ => none
  | .act i a =>
    match p.procs i with
    | some (.call c next) =>
      let r := I.exec c a p.world
      some ⟨r.2, Function.update p.procs i (some (next r.1))⟩
    | _ => none
  | .leave i =>
    match p.procs i with
    | some _ => some ⟨S.leave i p.world, Function.update p.procs i none⟩
    | none => none

def machine (init : σ → Prop) : Machine (Pool I) (Pool.Turn I S.Task) Unit where
  init p := init p.world ∧ ∀ i, p.procs i = none
  step p e p' _ := S.advance p e = some p'

/-- Turns one after the other, newest transition first; one that does not fit ends the play. -/
def play (h : List (Transition (Pool I) (Pool.Turn I S.Task) Unit)) (p : Pool I)
    (turns : List (Pool.Turn I S.Task)) :
    List (Transition (Pool I) (Pool.Turn I S.Task) Unit) × Pool I :=
  Machine.play (fun p e => (S.advance p e).map (·, ())) h p turns

variable {S} {init : σ → Prop}

/-- What a turn says about the environment. -/
def Meets (P : Pact I) (admits : Nat → σ → S.Task → Prop)
    (t : Transition (Pool I) (Pool.Turn I S.Task) Unit) : Prop :=
  match t.event with
  | .start i task => admits i t.before.world task
  | .act i a => ∀ c next, t.before.procs i = some (.call c next) → P.assumes t.before.world c a
  | .leave _ => True

/-- The call that a turn makes does its duty. -/
def Dutiful (P : Pact I) (t : Transition (Pool I) (Pool.Turn I S.Task) Unit) : Prop :=
  ∀ i a c next, t.event = .act i a → t.before.procs i = some (.call c next) →
    P.duty i t.before.world c a

/-- Each call, and each end of a process, leaves what the others rely on. -/
structure Keeps (S : System I) (P : Pact I) (admits : Nat → σ → S.Task → Prop) : Prop where
  keep : ∀ i s c a, P.safe s → P.assumes s c a → P.duty i s c a →
    P.safe (I.exec c a s).2 ∧ ∀ j, j ≠ i → P.rely j s (I.exec c a s).2
  leave : ∀ i s, P.safe s → P.safe (S.leave i s) ∧ ∀ j, j ≠ i → P.rely j s (S.leave i s)
  main : ∀ i s task, P.safe s → admits i s task → Runs P i (S.main i task) (fun _ _ => True) s

structure Covered (P : Pact I) (p : Pool I) : Prop where
  safe : P.safe p.world
  runs : ∀ i rest, p.procs i = some rest → Runs P i rest (fun _ _ => True) p.world

namespace Keeps

variable {P : Pact I} {admits : Nat → σ → S.Task → Prop} {p p' : Pool I} {e : Pool.Turn I S.Task}

theorem step (hk : S.Keeps P admits) (hc : Covered P p) (hs : S.advance p e = some p')
    (hm : Meets P admits ⟨p, e, p', ()⟩) : Covered P p' ∧ Dutiful (S := S) P ⟨p, e, p', ()⟩ := by
  obtain ⟨w, procs⟩ := p
  cases e with
  | start i task =>
    simp only [advance] at hs
    split at hs <;> cases hs
    refine ⟨⟨hc.safe, fun j rest h => ?_⟩, nofun⟩
    by_cases hj : j = i
    · subst hj
      simp only [Function.update_self, Option.some.injEq] at h
      exact h ▸ hk.main j w task hc.safe hm
    · simp only [Function.update_of_ne hj] at h
      exact hc.runs j rest h
  | act i a =>
    simp only [advance] at hs
    split at hs <;> cases hs
    rename_i c next hproc
    have ha : P.assumes w c a := hm c next hproc
    obtain ⟨hd, hrest⟩ := hc.runs i _ hproc w (P.refl i w) hc.safe a ha
    obtain ⟨hsafe, hothers⟩ := hk.keep i w c a hc.safe ha hd
    refine ⟨⟨hsafe, fun j rest h => ?_⟩, fun i' a' c' next' he hproc' => ?_⟩
    · by_cases hj : j = i
      · subst hj
        simp only [Function.update_self, Option.some.injEq] at h
        exact h ▸ hrest
      · simp only [Function.update_of_ne hj] at h
        exact (hc.runs j rest h).moved (hothers j hj)
    · cases he
      cases hproc.symm.trans hproc'
      exact hd
  | leave i =>
    simp only [advance] at hs
    split at hs <;> cases hs
    obtain ⟨hsafe, hothers⟩ := hk.leave i w hc.safe
    refine ⟨⟨hsafe, fun j rest h => ?_⟩, nofun⟩
    by_cases hj : j = i
    · subst hj
      simp only [Function.update_self] at h
      cases h
    · simp only [Function.update_of_ne hj] at h
      exact (hc.runs j rest h).moved (hothers j hj)

/-- In every run whose environment keeps its promises, each call does its duty. -/
theorem run (hk : S.Keeps P admits) (hi : ∀ w, init w → P.safe w)
    {h : List (Transition (Pool I) (Pool.Turn I S.Task) Unit)} {p : Pool I}
    (hr : (S.machine init).Run h p) (hm : ∀ t ∈ h, Meets P admits t) :
    Covered P p ∧ ∀ t ∈ h, P.safe t.before.world ∧ Dutiful (S := S) P t := by
  induction hr with
  | start hs =>
    refine ⟨⟨hi _ hs.1, fun i rest h => ?_⟩, by simp⟩
    rw [hs.2] at h
    cases h
  | snoc hr hs ih =>
    obtain ⟨hc, hall⟩ := ih fun t ht => hm t (List.mem_cons_of_mem _ ht)
    obtain ⟨hc', hd⟩ := hk.step hc hs (hm _ List.mem_cons_self)
    refine ⟨hc', fun t ht => ?_⟩
    rcases List.mem_cons.mp ht with rfl | ht
    · exact ⟨hc.safe, hd⟩
    · exact hall t ht

end Keeps

theorem run_play {h : List (Transition (Pool I) (Pool.Turn I S.Task) Unit)} {p : Pool I}
    (hr : (S.machine init).Run h p) (turns : List (Pool.Turn I S.Task)) :
    (S.machine init).Run (S.play h p turns).1 (S.play h p turns).2 :=
  hr.play fun _ _ _ _ => Machine.step_of_silent

end System

end Agend.Library
