import Agend.Library.Trace

/-! Programs that call a shared world, the rules for what holds at each of their calls, and a
server that runs one program at a time and may crash between any two calls. -/
namespace Agend.Library

/-- The calls a program may make. What one replies and does depends on the world and on what the
environment answers. -/
structure Interface (σ ε : Type) where
  Call : Type
  Reply : Call → Type
  Answer : Type
  exec : (c : Call) → Answer → σ → Except ε (Reply c) × σ

variable {σ ε : Type} {I : Interface σ ε} {α β : Type}

inductive Program (I : Interface σ ε) (α : Type) where
  | done (result : Except ε α)
  | call (c : I.Call) (next : Except ε (I.Reply c) → Program I α)

namespace Program

def bind : Program I α → (α → Program I β) → Program I β
  | done (.ok a), f => f a
  | done (.error e), _ => done (.error e)
  | call c next, f => call c fun r => (next r).bind f

instance : Monad (Program I) where
  pure a := done (.ok a)
  bind := bind

/-- One call; a call that fails ends the program. -/
def ask (c : I.Call) : Program I (I.Reply c) :=
  call c done

def raise (e : ε) : Program I α :=
  done (.error e)

/-- An option, or an error. -/
def orRaise (o : Option α) (e : ε) : Program I α :=
  match o with
  | some a => pure a
  | none => raise e

/-- Goes on only when `p` holds. -/
def check (p : Bool) (e : ε) : Program I Unit :=
  if p then pure () else raise e

/-- The result of a program as a value, its error included. -/
def attempt : Program I α → Program I (Except ε α)
  | done r => done (.ok r)
  | call c next => call c fun r => (next r).attempt

def forEach (f : α → Program I Unit) : List α → Program I Unit
  | [] => pure ()
  | a :: rest => do
    f a
    forEach f rest

end Program

/-- What holds of the world between calls, what the environment promises about an answer, and
what a program owes when it makes a call. -/
structure Contract (I : Interface σ ε) where
  safe : σ → Prop
  assumes : σ → I.Call → I.Answer → Prop
  duty : σ → I.Call → I.Answer → Prop

/-- The contract, with calls that move the world by `R` only. -/
def Contract.within (C : Contract I) (R : σ → σ → Prop) : Contract I where
  safe := C.safe
  assumes := C.assumes
  duty s c a := C.duty s c a ∧ R s (I.exec c a s).2

/-- A postcondition with a case for each way a program ends. -/
def After (ok : α → σ → Prop) (fail : ε → σ → Prop) : Except ε α → σ → Prop
  | .ok a, s => ok a s
  | .error e, s => fail e s

/-- From `s`, every call of the program does its duty and the result satisfies `Q`. -/
def Holds (C : Contract I) : Program I α → (Except ε α → σ → Prop) → σ → Prop
  | .done r, Q, s => C.safe s → Q r s
  | .call c next, Q, s => C.safe s → ∀ a, C.assumes s c a →
      C.duty s c a ∧ Holds C (next (I.exec c a s).1) Q (I.exec c a s).2

namespace Holds

variable {C : Contract I} {p : Program I α} {f : α → Program I β} {s : σ}
  {Q R : Except ε α → σ → Prop} {T : Except ε β → σ → Prop}

theorem mono (hp : Holds C p Q s) (h : ∀ r s', C.safe s' → Q r s' → R r s') :
    Holds C p R s := by
  induction p generalizing s with
  | done r => exact fun hs => h r s hs (hp hs)
  | call c next ih =>
    intro hs a ha
    obtain ⟨hd, hrest⟩ := hp hs a ha
    exact ⟨hd, ih _ hrest⟩

/-- The start may be assumed safe. -/
theorem of_safe (h : C.safe s → Holds C p Q s) : Holds C p Q s := by
  cases p with
  | done r => exact fun hs => h hs hs
  | call c next => exact fun hs => h hs hs

theorem pure {a : α} (h : Q (.ok a) s) : Holds C (Pure.pure a : Program I α) Q s :=
  fun _ => h

theorem raise {e : ε} (h : Q (.error e) s) : Holds C (Program.raise e : Program I α) Q s :=
  fun _ => h

/-- One program after another. -/
theorem bind (hp : Holds C p R s)
    (ok : ∀ a s', C.safe s' → R (.ok a) s' → Holds C (f a) T s')
    (fail : ∀ e s', C.safe s' → R (.error e) s' → T (.error e) s') :
    Holds C (p >>= f) T s := by
  induction p generalizing s with
  | done r =>
    cases r with
    | ok a => exact of_safe fun hs => ok a s hs (hp hs)
    | error e => exact fun hs => fail e s hs (hp hs)
  | call c next ih =>
    intro hs a ha
    obtain ⟨hd, hrest⟩ := hp hs a ha
    exact ⟨hd, ih _ hrest⟩

theorem ask {c : I.Call} {Q : Except ε (I.Reply c) → σ → Prop}
    (h : C.safe s → ∀ a, C.assumes s c a → C.duty s c a ∧ (C.safe (I.exec c a s).2 →
      Q (I.exec c a s).1 (I.exec c a s).2)) : Holds C (Program.ask c) Q s :=
  fun hs a ha => h hs a ha

/-- What the environment promises about a call may be used before it is made. -/
theorem askAssuming {P : Prop} {c : I.Call} {f : I.Reply c → Program I β}
    (hP : ∀ a, C.assumes s c a → P) (h : P → Holds C (Program.ask c >>= f) T s) :
    Holds C (Program.ask c >>= f) T s :=
  fun hs a ha => h (hP a ha) hs a ha

theorem orRaise {o : Option α} {e : ε} (ok : ∀ a, o = some a → Q (.ok a) s)
    (fail : o = none → Q (.error e) s) : Holds C (Program.orRaise o e) Q s := by
  cases o with
  | some a => exact fun _ => ok a rfl
  | none => exact fun _ => fail rfl

theorem check {b : Bool} {e : ε} {Q : Except ε Unit → σ → Prop} (ok : b = true → Q (.ok ()) s)
    (fail : b = false → Q (.error e) s) : Holds C (Program.check b e) Q s := by
  cases b with
  | true => exact fun _ => ok rfl
  | false => exact fun _ => fail rfl

theorem orRaiseThen {o : Option α} {e : ε} (ok : ∀ a, o = some a → Holds C (f a) T s)
    (fail : o = none → T (.error e) s) : Holds C (Program.orRaise o e >>= f) T s := by
  cases o with
  | some a => exact ok a rfl
  | none => exact fun _ => fail rfl

theorem checkThen {b : Bool} {e : ε} {f : Unit → Program I β}
    (ok : b = true → Holds C (f ()) T s) (fail : b = false → T (.error e) s) :
    Holds C (Program.check b e >>= f) T s := by
  cases b with
  | true => exact ok rfl
  | false => exact fun _ => fail rfl

theorem doneThen {r : Except ε α} (ok : ∀ a, r = .ok a → Holds C (f a) T s)
    (fail : ∀ e, r = .error e → T (.error e) s) :
    Holds C ((Program.done r : Program I α) >>= f) T s := by
  cases r with
  | ok a => exact ok a rfl
  | error e => exact fun _ => fail e rfl

/-- What comes after a caught program sees its result. -/
theorem attemptThen {f : Except ε α → Program I β} (hp : Holds C p Q s)
    (h : ∀ r s', C.safe s' → Q r s' → Holds C (f r) T s') : Holds C (p.attempt >>= f) T s := by
  induction p generalizing s with
  | done r => exact of_safe fun hs => h r s hs (hp hs)
  | call c next ih =>
    intro hs a ha
    obtain ⟨hd, hrest⟩ := hp hs a ha
    exact ⟨hd, ih _ hrest⟩

theorem wider {R R' : σ → σ → Prop} (hp : Holds (C.within R) p Q s)
    (h : ∀ s s', R s s' → R' s s') : Holds (C.within R') p Q s := by
  induction p generalizing s with
  | done r => exact hp
  | call c next ih =>
    intro hs a ha
    obtain ⟨⟨hd, hr⟩, hrest⟩ := hp hs a ha
    exact ⟨⟨hd, h _ _ hr⟩, ih _ hrest⟩

/-- A program that is held to its contract within bounds is held to the contract. -/
theorem unbounded {R : σ → σ → Prop} (hp : Holds (C.within R) p Q s) : Holds C p Q s := by
  induction p generalizing s with
  | done r => exact hp
  | call c next ih =>
    intro hs a ha
    obtain ⟨⟨hd, -⟩, hrest⟩ := hp hs a ha
    exact ⟨hd, ih _ hrest⟩

/-- What bounds every call bounds the run. -/
theorem bounded {R : σ → σ → Prop} [IsPreorder σ R] (hp : Holds (C.within R) p Q s) :
    Holds (C.within R) p (fun r s' => Q r s' ∧ R s s') s := by
  have from_ : ∀ s0, R s0 s → Holds (C.within R) p (fun r s' => Q r s' ∧ R s0 s') s := by
    intro s0 h0
    induction p generalizing s with
    | done r => exact fun hs => ⟨hp hs, h0⟩
    | call c next ih =>
      intro hs a ha
      obtain ⟨⟨hd, hr⟩, hrest⟩ := hp hs a ha
      exact ⟨⟨hd, hr⟩, ih _ hrest (trans_of R h0 hr)⟩
  exact from_ s (refl_of R s)

/-- The loop rule: each round takes the fact about the remaining list one element on. -/
theorem forEach {P : List α → σ → Prop} {E : ε → σ → Prop} {f : α → Program I Unit}
    {l : List α} (round : ∀ a rest s, C.safe s → P (a :: rest) s →
      Holds C (f a) (After (fun _ s' => P rest s') E) s) (h : P l s) :
    Holds C (Program.forEach f l) (After (fun _ s' => P [] s') E) s := by
  induction l generalizing s with
  | nil => exact fun _ => h
  | cons a rest ih =>
    refine of_safe fun hs => (round a rest s hs h).bind (fun _ s' _ hP => ih hP) ?_
    exact fun e s' _ he => he

theorem forEachThen {P : List α → σ → Prop} {E : ε → σ → Prop} {f : α → Program I Unit}
    {g : Unit → Program I β} {l : List α} (round : ∀ a rest s, C.safe s → P (a :: rest) s →
      Holds C (f a) (After (fun _ s' => P rest s') E) s) (h : P l s)
    (ok : ∀ s', C.safe s' → P [] s' → Holds C (g ()) T s')
    (fail : ∀ e s', E e s' → T (.error e) s') : Holds C (Program.forEach f l >>= g) T s :=
  (forEach round h).bind (fun _ s' hs hP => ok s' hs hP) fun e s' _ he => fail e s' he

end Holds

/-- A part of the world that only the program moves: how a call moves it, by what the call
replies, and what the program owes there when it makes the call. -/
structure View (I : Interface σ ε) (γ : Type) where
  step : γ → (c : I.Call) → Except ε (I.Reply c) → γ → Prop
  duty : γ → I.Call → Prop

variable {γ : Type}

/-- The view, with calls that move it by `R` only. -/
def View.within (V : View I γ) (R : γ → γ → Prop) : View I γ where
  step := V.step
  duty g c := V.duty g c ∧ ∀ r g', V.step g c r g' → R g g'

/-- From `g`, every call of the program does its duty whatever it replies, and the result satisfies
`Q`. -/
def Watched (V : View I γ) : Program I α → (Except ε α → γ → Prop) → γ → Prop
  | .done r, Q, g => Q r g
  | .call c next, Q, g => V.duty g c ∧ ∀ r g', V.step g c r g' → Watched V (next r) Q g'

namespace Watched

variable {V : View I γ} {p : Program I α} {f : α → Program I β} {g : γ}
  {Q R : Except ε α → γ → Prop} {T : Except ε β → γ → Prop}

theorem mono (hp : Watched V p Q g) (h : ∀ r g', Q r g' → R r g') : Watched V p R g := by
  induction p generalizing g with
  | done r => exact h r g hp
  | call c next ih => exact ⟨hp.1, fun r g' hg => ih r (hp.2 r g' hg)⟩

/-- One program after another. -/
theorem bind (hp : Watched V p R g) (ok : ∀ a g', R (.ok a) g' → Watched V (f a) T g')
    (fail : ∀ e g', R (.error e) g' → T (.error e) g') : Watched V (p >>= f) T g := by
  induction p generalizing g with
  | done r =>
    cases r with
    | ok a => exact ok a g hp
    | error e => exact fail e g hp
  | call c next ih => exact ⟨hp.1, fun r g' hg => ih r (hp.2 r g' hg)⟩

theorem checkThen {b : Bool} {e : ε} {f : Unit → Program I β}
    (ok : b = true → Watched V (f ()) T g) (fail : b = false → T (.error e) g) :
    Watched V (Program.check b e >>= f) T g := by
  cases b with
  | true => exact ok rfl
  | false => exact fail rfl

theorem orRaiseThen {o : Option α} {e : ε} (ok : ∀ a, o = some a → Watched V (f a) T g)
    (fail : o = none → T (.error e) g) : Watched V (Program.orRaise o e >>= f) T g := by
  cases o with
  | some a => exact ok a rfl
  | none => exact fail rfl

/-- A caught error is a result like any other. -/
theorem attempt (hp : Watched V p Q g) : Watched V p.attempt
    (fun r g' => ∃ r', r = .ok r' ∧ Q r' g') g := by
  induction p generalizing g with
  | done r => exact ⟨r, rfl, hp⟩
  | call c next ih => exact ⟨hp.1, fun r g' hg => ih r (hp.2 r g' hg)⟩

/-- What comes after a caught program sees its result. -/
theorem attemptThen {f : Except ε α → Program I β} (hp : Watched V p Q g)
    (h : ∀ r g', Q r g' → Watched V (f r) T g') : Watched V (p.attempt >>= f) T g := by
  refine hp.attempt.bind (fun r g' hr => ?_) fun e g' hr => ?_
  · obtain ⟨r', hr', hq⟩ := hr
    cases hr'
    exact h r g' hq
  · obtain ⟨r', hr', -⟩ := hr
    cases hr'

theorem wider {R R' : γ → γ → Prop} (hp : Watched (V.within R) p Q g)
    (h : ∀ g g', R g g' → R' g g') : Watched (V.within R') p Q g := by
  induction p generalizing g with
  | done r => exact hp
  | call c next ih =>
    exact ⟨⟨hp.1.1, fun r g' hg => h g g' (hp.1.2 r g' hg)⟩, fun r g' hg => ih r (hp.2 r g' hg)⟩

/-- What bounds every call bounds the run. -/
theorem bounded {R : γ → γ → Prop} [IsPreorder γ R] (hp : Watched (V.within R) p Q g) :
    Watched (V.within R) p (fun r g' => Q r g' ∧ R g g') g := by
  have from_ : ∀ g0, R g0 g → Watched (V.within R) p (fun r g' => Q r g' ∧ R g0 g') g := by
    intro g0 h0
    induction p generalizing g with
    | done r => exact ⟨hp, h0⟩
    | call c next ih =>
      exact ⟨hp.1, fun r g' hg => ih r (hp.2 r g' hg) (trans_of R h0 (hp.1.2 r g' hg))⟩
  exact from_ g (refl_of R g)

theorem unbounded {R : γ → γ → Prop} (hp : Watched (V.within R) p Q g) : Watched V p Q g := by
  induction p generalizing g with
  | done r => exact hp
  | call c next ih => exact ⟨hp.1.1, fun r g' hg => ih r (hp.2 r g' hg)⟩

/-- The loop rule: each round takes the fact about the remaining list one element on. -/
theorem forEach {P : List α → γ → Prop} {f : α → Program I Unit} {l : List α}
    (round : ∀ a rest g, P (a :: rest) g → Watched V (f a) (After (fun _ => P rest) fun _ _ => True) g)
    (h : P l g) : Watched V (Program.forEach f l) (fun _ _ => True) g := by
  induction l generalizing g with
  | nil => exact trivial
  | cons a rest ih => exact (round a rest g h).bind (fun _ _ hP => ih hP) fun _ _ _ => trivial

end Watched

/-- The program does its duties from wherever it starts. -/
def Heeds (V : View I γ) (p : Program I α) : Prop := ∀ g, Watched V p (fun _ _ => True) g

namespace Heeds

variable {V : View I γ} {p : Program I α} {f : α → Program I β}

theorem bind (hp : Heeds V p) (hf : ∀ a, Heeds V (f a)) : Heeds V (p >>= f) :=
  fun g => (hp g).bind (fun a g' _ => hf a g') fun _ _ _ => trivial

theorem pure {a : α} : Heeds V (Pure.pure a : Program I α) := fun _ => trivial

theorem raise {e : ε} : Heeds V (Program.raise e : Program I α) := fun _ => trivial

theorem done {r : Except ε α} : Heeds V (Program.done r : Program I α) := fun _ => trivial

theorem orRaise {o : Option α} {e : ε} : Heeds V (Program.orRaise o e : Program I α) := by
  cases o with
  | some a => exact pure
  | none => exact raise

theorem check {b : Bool} {e : ε} : Heeds V (Program.check b e : Program I Unit) := by
  cases b with
  | true => exact pure
  | false => exact raise

theorem attempt (hp : Heeds V p) : Heeds V p.attempt :=
  fun g => (hp g).attempt.mono fun _ _ _ => trivial

theorem forEach {f : α → Program I Unit} {l : List α} (h : ∀ a, Heeds V (f a)) :
    Heeds V (Program.forEach f l) := by
  induction l with
  | nil => exact pure
  | cons a rest ih => exact (h a).bind fun _ => ih

end Heeds

/-- From `s` the program comes to `P` at some call, or ends with `Q`, whatever the environment
answers of what it promises; and it can always answer. -/
def Reaches (assumes : σ → I.Call → I.Answer → Prop) (P : σ → Prop) :
    Program I α → (Except ε α → σ → Prop) → σ → Prop
  | .done r, Q, s => Q r s
  | .call c next, Q, s => P s ∨ (∃ a, assumes s c a) ∧ ∀ a, assumes s c a →
      Reaches assumes P (next (I.exec c a s).1) Q (I.exec c a s).2

namespace Reaches

variable {assumes : σ → I.Call → I.Answer → Prop} {P : σ → Prop} {p : Program I α}
  {f : α → Program I β} {s : σ} {Q R : Except ε α → σ → Prop} {T : Except ε β → σ → Prop}

theorem now (h : P s) (hQ : ∀ r, Q r s) : Reaches assumes P p Q s := by
  cases p with
  | done r => exact hQ r
  | call c next => exact Or.inl h

/-- One program after another. -/
theorem bind (hp : Reaches assumes P p R s) (ok : ∀ a s', R (.ok a) s' → Reaches assumes P (f a) T s')
    (fail : ∀ e s', R (.error e) s' → T (.error e) s') : Reaches assumes P (p >>= f) T s := by
  induction p generalizing s with
  | done r =>
    cases r with
    | ok a => exact ok a s hp
    | error e => exact fail e s hp
  | call c next ih =>
    rcases hp with h | ⟨hex, hall⟩
    · exact Or.inl h
    · exact Or.inr ⟨hex, fun a ha => ih _ (hall a ha)⟩

theorem ask {c : I.Call} {Q : Except ε (I.Reply c) → σ → Prop} (hex : ∃ a, assumes s c a)
    (h : ∀ a, assumes s c a → Q (I.exec c a s).1 (I.exec c a s).2) :
    Reaches assumes P (Program.ask c) Q s :=
  Or.inr ⟨hex, h⟩

theorem checkThen {b : Bool} {e : ε} {f : Unit → Program I β} (hb : b = true)
    (ok : Reaches assumes P (f ()) T s) : Reaches assumes P (Program.check b e >>= f) T s := by
  rw [hb]
  exact ok

theorem orRaiseThen {o : Option α} {e : ε} {a : α} (ho : o = some a)
    (ok : Reaches assumes P (f a) T s) : Reaches assumes P (Program.orRaise o e >>= f) T s := by
  rw [ho]
  exact ok

end Reaches

/-- A server: a program that starts it and one for each request. -/
structure Server (I : Interface σ ε) where
  Request : Type
  start : Program I Unit
  serve : Request → Program I Unit

inductive Phase (I : Interface σ ε) where
  | down
  | idle
  | busy (starting : Bool) (rest : Program I Unit)

structure Process (I : Interface σ ε) where
  world : σ
  phase : Phase I

inductive Signal (I : Interface σ ε) (ρ : Type) where
  | start
  | serve (request : ρ)
  | answer (answer : I.Answer)
  | finish
  | crash

inductive Trail (I : Interface σ ε) where
  | silent
  | called (c : I.Call) (reply : Except ε (I.Reply c))
  | finished (result : Except ε Unit)

namespace Server

variable (S : Server I)

/-- A crash leaves the world as the last call left it; a start that fails leaves the server
down. -/
def advance (p : Process I) : Signal I S.Request → Option (Process I × Trail I)
  | .start =>
    match p.phase with
    | .down => some (⟨p.world, .busy true S.start⟩, .silent)
    | _ => none
  | .serve request =>
    match p.phase with
    | .idle => some (⟨p.world, .busy false (S.serve request)⟩, .silent)
    | _ => none
  | .answer a =>
    match p.phase with
    | .busy starting (.call c next) =>
      let r := I.exec c a p.world
      some (⟨r.2, .busy starting (next r.1)⟩, .called c r.1)
    | _ => none
  | .finish =>
    match p.phase with
    | .busy starting (.done r) =>
      some (⟨p.world, if starting && !r.isOk then .down else .idle⟩, .finished r)
    | _ => none
  | .crash => some (⟨p.world, .down⟩, .silent)

def machine (init : σ → Prop) : Machine (Process I) (Signal I S.Request) (Trail I) where
  init p := init p.world ∧ p.phase = .down
  step p e p' o := S.advance p e = some (p', o)

/-- Signals one after the other, newest transition first; one that does not fit ends the play. -/
def play (h : List (Transition (Process I) (Signal I S.Request) (Trail I))) (p : Process I)
    (signals : List (Signal I S.Request)) :
    List (Transition (Process I) (Signal I S.Request) (Trail I)) × Process I :=
  Machine.play S.advance h p signals

variable {S} {init : σ → Prop}

/-- What a transition says about the environment: the requests it admits and the answers it
gives. -/
def Meets (C : Contract I) (admits : σ → Option S.Request → Prop)
    (t : Transition (Process I) (Signal I S.Request) (Trail I)) : Prop :=
  match t.event, t.before.phase with
  | .start, _ => admits t.before.world none
  | .serve request, _ => admits t.before.world (some request)
  | .answer a, .busy _ (.call c _) => C.assumes t.before.world c a
  | _, _ => True

/-- The call a transition makes does its duty. -/
def Dutiful (C : Contract I) (t : Transition (Process I) (Signal I S.Request) (Trail I)) : Prop :=
  match t.event, t.before.phase with
  | .answer a, .busy _ (.call c _) => C.duty t.before.world c a
  | _, _ => True

/-- Only calls change the world. -/
theorem world_advance {p p' : Process I} {e : Signal I S.Request} {o : Trail I}
    (hs : S.advance p e = some (p', o)) : p'.world = p.world ∨ ∃ starting c next a,
      e = .answer a ∧ p.phase = .busy starting (.call c next) ∧
      p'.world = (I.exec c a p.world).2 := by
  obtain ⟨w, phase⟩ := p
  unfold advance at hs
  split at hs
  · split at hs <;> cases hs
    exact .inl rfl
  · split at hs <;> cases hs
    exact .inl rfl
  · split at hs <;> cases hs
    exact .inr ⟨_, _, _, _, rfl, ‹_›, rfl⟩
  · split at hs <;> cases hs
    exact .inl rfl
  · cases hs
    exact .inl rfl

/-- The programs of a server keep a contract, and `ready` between requests. -/
structure Keeps (S : Server I) (C : Contract I) (ready : σ → Prop)
    (admits : σ → Option S.Request → Prop) : Prop where
  keep : ∀ s c a, C.safe s → C.assumes s c a → C.duty s c a → C.safe (I.exec c a s).2
  start : ∀ s, C.safe s → admits s none →
    Holds C S.start (fun r s' => r.isOk = true → ready s') s
  serve : ∀ s request, C.safe s → ready s → admits s (some request) →
    Holds C (S.serve request) (fun _ s' => ready s') s

/-- What is known in each phase. -/
structure Covered (C : Contract I) (ready : σ → Prop) (p : Process I) : Prop where
  safe : C.safe p.world
  idle : p.phase = .idle → ready p.world
  busy : ∀ starting rest, p.phase = .busy starting rest →
    Holds C rest (fun r s' => (starting = true → r.isOk = true) → ready s') p.world

namespace Keeps

variable {C : Contract I} {ready : σ → Prop} {admits : σ → Option S.Request → Prop}
  {p p' : Process I} {e : Signal I S.Request} {o : Trail I}

theorem step (hk : S.Keeps C ready admits) (hc : Covered C ready p)
    (hs : S.advance p e = some (p', o)) (hm : Meets C admits ⟨p, e, p', o⟩) :
    Covered C ready p' ∧ Dutiful (S := S) C ⟨p, e, p', o⟩ := by
  obtain ⟨w, phase⟩ := p
  cases e with
  | start =>
    cases phase with
    | down =>
      obtain ⟨rfl, -⟩ := Prod.mk.inj (Option.some.inj hs)
      refine ⟨⟨hc.safe, (fun h => nomatch h), fun starting rest h => ?_⟩, trivial⟩
      cases h
      exact (hk.start w hc.safe hm).mono fun r s' _ hr hok => hr (hok rfl)
    | idle => cases hs
    | busy => cases hs
  | serve request =>
    cases phase with
    | idle =>
      obtain ⟨rfl, -⟩ := Prod.mk.inj (Option.some.inj hs)
      refine ⟨⟨hc.safe, (fun h => nomatch h), fun starting rest h => ?_⟩, trivial⟩
      cases h
      exact (hk.serve w request hc.safe (hc.idle rfl) hm).mono fun _ _ _ hr _ => hr
    | down => cases hs
    | busy => cases hs
  | answer a =>
    cases phase with
    | busy starting rest =>
      cases rest with
      | call c next =>
        obtain ⟨rfl, -⟩ := Prod.mk.inj (Option.some.inj hs)
        obtain ⟨hd, hrest⟩ := hc.busy starting _ rfl hc.safe a hm
        refine ⟨⟨hk.keep w c a hc.safe hm hd, (fun h => nomatch h), fun starting' rest' h => ?_⟩, hd⟩
        cases h
        exact hrest
      | done => cases hs
    | down => cases hs
    | idle => cases hs
  | finish =>
    cases phase with
    | busy starting rest =>
      cases rest with
      | done r =>
        obtain ⟨rfl, -⟩ := Prod.mk.inj (Option.some.inj hs)
        have hr := hc.busy starting _ rfl hc.safe
        refine ⟨⟨hc.safe, fun h => hr fun hst => ?_, fun _ _ h => ?_⟩, trivial⟩
        · subst hst
          cases hok : r.isOk with
          | true => rfl
          | false => simp [hok] at h
        · simp only at h
          split_ifs at h
      | call => cases hs
    | down => cases hs
    | idle => cases hs
  | crash =>
    obtain ⟨rfl, -⟩ := Prod.mk.inj (Option.some.inj hs)
    exact ⟨⟨hc.safe, (fun h => nomatch h), fun _ _ h => nomatch h⟩, trivial⟩

/-- In every run whose environment keeps its promises, each call does its duty. -/
theorem run (hk : S.Keeps C ready admits) (hi : ∀ w, init w → C.safe w)
    {h : List (Transition (Process I) (Signal I S.Request) (Trail I))} {p : Process I}
    (hr : (S.machine init).Run h p) (hm : ∀ t ∈ h, Meets C admits t) :
    Covered C ready p ∧ ∀ t ∈ h, Covered C ready t.before ∧ Dutiful (S := S) C t := by
  induction hr with
  | start hs =>
    refine ⟨⟨hi _ hs.1, fun h => ?_, fun _ _ h => ?_⟩, by simp⟩
    · rw [hs.2] at h
      cases h
    · rw [hs.2] at h
      cases h
  | snoc hr hs ih =>
    obtain ⟨hc, hall⟩ := ih fun t ht => hm t (List.mem_cons_of_mem _ ht)
    obtain ⟨hc', hd⟩ := hk.step hc hs (hm _ List.mem_cons_self)
    refine ⟨hc', fun t ht => ?_⟩
    rcases List.mem_cons.mp ht with rfl | ht
    · exact ⟨hc, hd⟩
    · exact hall t ht

end Keeps

theorem run_play {h : List (Transition (Process I) (Signal I S.Request) (Trail I))}
    {p : Process I} (hr : (S.machine init).Run h p) (signals : List (Signal I S.Request)) :
    (S.machine init).Run (S.play h p signals).1 (S.play h p signals).2 :=
  hr.play fun _ _ _ _ hs => hs

/-- The program that runs does its duties from here on. -/
def Minds (V : View I γ) (p : Process I) (g : γ) : Prop :=
  ∀ starting rest, p.phase = .busy starting rest → Watched V rest (fun _ _ => True) g

/-- A server whose programs all do their duties does its duty at each call, whatever others do to
the rest of the world. -/
theorem minds_advance {V : View I γ} {g : γ} {p p' : Process I} {e : Signal I S.Request}
    {o : Trail I} (hstart : Heeds V S.start) (hserve : ∀ request, Heeds V (S.serve request))
    (h : Minds V p g) (hs : S.advance p e = some (p', o)) :
    ((∀ a, e ≠ .answer a) ∧ p'.world = p.world ∧ Minds V p' g) ∨ ∃ starting c next a, e = .answer a ∧
      p.phase = .busy starting (.call c next) ∧ p'.world = (I.exec c a p.world).2 ∧ V.duty g c ∧
      ∀ g', V.step g c (I.exec c a p.world).1 g' → Minds V p' g' := by
  obtain ⟨w, phase⟩ := p
  cases e with
  | start =>
    cases phase <;> cases hs
    refine Or.inl ⟨nofun, rfl, fun starting rest hb => ?_⟩
    cases hb
    exact hstart g
  | serve request =>
    cases phase <;> cases hs
    refine Or.inl ⟨nofun, rfl, fun starting rest hb => ?_⟩
    cases hb
    exact hserve request g
  | answer a =>
    cases phase with
    | busy starting rest =>
      cases rest with
      | call c next =>
        cases hs
        obtain ⟨hd, hnext⟩ := h starting _ rfl
        refine Or.inr ⟨starting, c, next, a, rfl, rfl, rfl, hd, fun g' hg starting' rest' hb => ?_⟩
        cases hb
        exact hnext _ g' hg
      | done => cases hs
    | down => cases hs
    | idle => cases hs
  | finish =>
    cases phase with
    | busy starting rest =>
      cases rest with
      | done r =>
        cases hs
        refine Or.inl ⟨nofun, rfl, fun starting' rest' hb => ?_⟩
        simp only at hb
        split_ifs at hb
      | call => cases hs
    | down => cases hs
    | idle => cases hs
  | crash =>
    cases hs
    exact Or.inl ⟨nofun, rfl, fun _ _ hb => nomatch hb⟩

end Server

end Agend.Library
