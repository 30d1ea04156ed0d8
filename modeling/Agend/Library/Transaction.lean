import Mathlib.Tactic.TypeStar

/-! Transactions over a store: statements change a working copy, any of them may fail, and only a
commit makes the copy the store. -/
namespace Agend.Library

/-- One open transaction. `fault` counts the statements until one fails. -/
structure Session (σ : Type) where
  working : σ
  committed : σ
  fault : Option Nat

def Tx (σ ε α : Type) : Type := Session σ → Except ε α × Session σ

namespace Tx

variable {σ ε α β : Type}

protected def pure (a : α) : Tx σ ε α := fun s => (.ok a, s)

protected def bind (x : Tx σ ε α) (f : α → Tx σ ε β) : Tx σ ε β := fun s =>
  match x s with
  | (.ok a, s') => f a s'
  | (.error e, s') => (.error e, s')

instance : Monad (Tx σ ε) where
  pure := Tx.pure
  bind := Tx.bind

def fail (e : ε) : Tx σ ε α := fun s => (.error e, s)

/-- One statement: it reads and writes the working copy at once, or fails with `lost`. -/
def statement (lost : ε) (f : σ → Except ε (α × σ)) : Tx σ ε α := fun s =>
  match s.fault with
  | some 0 => (.error lost, s)
  | fault =>
    match f s.working with
    | .ok (a, working) => (.ok a, ⟨working, s.committed, fault.map (· - 1)⟩)
    | .error e => (.error e, s)

/-- The working copy becomes the store, unless the commit is the statement that fails. -/
def commit (lost : ε) : Tx σ ε Unit := fun s =>
  match s.fault with
  | some 0 => (.error lost, s)
  | fault => (.ok (), ⟨s.working, s.working, fault.map (· - 1)⟩)

/-- A transaction from its start to its end: what was not committed is rolled back. -/
def transact (x : Tx σ ε α) (fault : Option Nat) (s : σ) : Except ε α × σ :=
  let (r, session) := x ⟨s, s, fault⟩
  (r, session.committed)

/-- Statements without a commit: the store stays, and a result moved the working copy by `R`. -/
def Moves (x : Tx σ ε α) (R : σ → α → σ → Prop) : Prop :=
  ∀ s, (x s).2.committed = s.committed ∧
    ∀ a, (x s).1 = .ok a → R s.working a (x s).2.working

variable {x : Tx σ ε α} {f : α → Tx σ ε β} {R : σ → α → σ → Prop} {lost e : ε} {s s' : σ}
  {fault : Option Nat}

theorem moves_pure {a : α} : Moves (pure a : Tx σ ε α) fun s b s' => b = a ∧ s' = s :=
  fun _ => ⟨rfl, fun _ h => ⟨(Except.ok.inj h).symm, rfl⟩⟩

theorem moves_fail : Moves (fail e : Tx σ ε α) fun _ _ _ => False :=
  fun _ => ⟨rfl, fun _ h => nomatch h⟩

theorem moves_statement {g : σ → Except ε (α × σ)} :
    Moves (statement lost g) fun s a s' => g s = .ok (a, s') := by
  intro s
  unfold statement
  split
  · exact ⟨rfl, fun _ h => nomatch h⟩
  · split
    · rename_i a working hg
      refine ⟨rfl, fun b h => ?_⟩
      obtain rfl := Except.ok.inj h
      exact hg
    · exact ⟨rfl, fun _ h => nomatch h⟩

theorem Moves.bind {Q : α → σ → β → σ → Prop} (hx : Moves x R) (hf : ∀ a, Moves (f a) (Q a)) :
    Moves (x >>= f) fun s b s' => ∃ a s1, R s a s1 ∧ Q a s1 b s' := by
  intro s
  change (Tx.bind x f s).2.committed = _ ∧ _
  obtain ⟨hc, hr⟩ := hx s
  simp only [Bind.bind, Tx.bind]
  cases hxs : x s with
  | mk r s1 =>
    rw [hxs] at hc hr
    cases r with
    | error e => exact ⟨hc, fun _ h => nomatch h⟩
    | ok a =>
      obtain ⟨hc', hr'⟩ := hf a s1
      exact ⟨hc'.trans hc, fun b hb => ⟨a, s1.working, hr a rfl, hr' b hb⟩⟩

theorem Moves.mono {Q : σ → α → σ → Prop} (hx : Moves x R) (h : ∀ s a s', R s a s' → Q s a s') :
    Moves x Q :=
  fun s => ⟨(hx s).1, fun a ha => h _ _ _ ((hx s).2 a ha)⟩

/-- Statements that may end with a commit: a result says what the store became, an error leaves
it. -/
def Commits (x : Tx σ ε α) (K : σ → σ → α → σ → Prop) : Prop :=
  ∀ s, (∃ a, (x s).1 = .ok a ∧ K s.committed s.working a (x s).2.committed) ∨
    ∃ e, (x s).1 = .error e ∧ (x s).2.committed = s.committed

theorem commits_pure {a : α} : Commits (pure a : Tx σ ε α) fun c _ b c' => b = a ∧ c' = c :=
  fun _ => Or.inl ⟨a, rfl, rfl, rfl⟩

theorem commits_commit {a : α} :
    Commits (commit lost >>= fun _ => pure a : Tx σ ε α) fun _ w b c' => b = a ∧ c' = w := by
  intro s
  simp only [Bind.bind, Tx.bind, commit]
  cases hf : s.fault with
  | none => exact Or.inl ⟨a, rfl, rfl, rfl⟩
  | some n =>
    cases n with
    | zero => exact Or.inr ⟨lost, rfl, rfl⟩
    | succ n => exact Or.inl ⟨a, rfl, rfl, rfl⟩

/-- What comes before the commit moves the working copy only. -/
theorem Moves.commits {K : α → σ → σ → β → σ → Prop} (hx : Moves x R)
    (hf : ∀ a, Commits (f a) (K a)) :
    Commits (x >>= f) fun c w b c' => ∃ a w1, R w a w1 ∧ K a c w1 b c' := by
  intro s
  obtain ⟨hc, hr⟩ := hx s
  simp only [Bind.bind, Tx.bind]
  cases hxs : x s with
  | mk r s1 =>
    rw [hxs] at hc hr
    cases r with
    | error e => exact Or.inr ⟨e, rfl, hc⟩
    | ok a =>
      rcases hf a s1 with ⟨b, hb, hk⟩ | ⟨e, he, hs⟩
      · exact Or.inl ⟨b, hb, a, s1.working, hr a rfl, hc ▸ hk⟩
      · exact Or.inr ⟨e, he, hs.trans hc⟩

theorem Commits.mono {K K' : σ → σ → α → σ → Prop} (hx : Commits x K)
    (h : ∀ c w a c', K c w a c' → K' c w a c') : Commits x K' := by
  intro s
  rcases hx s with ⟨a, ha, hk⟩ | he
  · exact Or.inl ⟨a, ha, h _ _ _ _ hk⟩
  · exact Or.inr he

/-- A whole transaction does all of it, or nothing. -/
theorem Commits.transact {K : σ → σ → α → σ → Prop} (hx : Commits x K) (fault : Option Nat)
    (s : σ) :
    (∃ a s', Tx.transact x fault s = (.ok a, s') ∧ K s s a s') ∨
      ∃ e, Tx.transact x fault s = (.error e, s) := by
  rcases hx ⟨s, s, fault⟩ with ⟨a, ha, hk⟩ | ⟨e, he, hs⟩
  · exact Or.inl ⟨a, _, Prod.ext ha rfl, hk⟩
  · exact Or.inr ⟨e, Prod.ext he hs⟩

end Tx

end Agend.Library
