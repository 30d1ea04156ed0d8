import Mathlib.Algebra.Group.Nat.Defs
import Agend.Library.Except
import Agend.Library.Table
import Agend.Library.Trace

/-! Things that are checked again and again: attempts that a late answer cannot complete, and
revisions that an acknowledgement names. -/
namespace Agend.Library

/-- What is known of the thing under a key, checked for one scope. A new scope is a new
generation. -/
structure Observation (κ γ ω α : Type) where
  key : κ
  generation : γ
  scope : ω
  attempt : Nat
  startedMs : Nat
  completedMs : Option Nat
  latest : Option α
  error : Option String
  changedMs : Option Nat
  revision : Nat
  acknowledgedRevision : Nat
  deriving DecidableEq

/-- How one kind of thing is checked. `answers` says whether a ticket is of the attempt of a
row. -/
structure Checking (κ γ ω α τ : Type) where
  intervalMs : Nat
  intervalMs_pos : 0 < intervalMs
  invalid : String
  readable : Observation κ γ ω α → Bool
  accepts : τ → Except String α → Bool
  ticketKey : τ → κ
  answers : τ → Observation κ γ ω α → Bool
  /-- Whether a first success, with no error before it, goes without a revision. -/
  quietBaseline : Bool

/-- The rows, and the scope that each key has now. -/
structure Observations (κ γ ω α : Type) [DecidableEq κ] where
  scope : κ → Option ω
  rows : Table (Observation.key (κ := κ) (γ := γ) (ω := ω) (α := α))

inductive Check (κ γ ω α τ : Type) where
  /-- Takes, removes or changes the scope of a key. -/
  | rescope (key : κ) (scope : Option ω)
  /-- `drawn` is the generation of a new row. -/
  | begin_ (key : κ) (now : Nat) (drawn : Except String γ)
  | finish (ticket : τ) (now : Nat) (result : Except String α)
  | acknowledge (key : κ) (generation : γ) (revision : Nat)

inductive Checked (κ γ ω α : Type) where
  | rescoped
  | begun (row : Option (Observation κ γ ω α))
  | done (accepted : Bool)

section

variable {κ γ ω α τ : Type} [DecidableEq κ] [DecidableEq γ] [DecidableEq ω] [DecidableEq α]

/-- A new row, before its first attempt. -/
def Observation.new (key : κ) (generation : γ) (scope : ω) (now : Nat) : Observation κ γ ω α :=
  ⟨key, generation, scope, 0, now, none, none, none, none, 0, 0⟩

def Observation.started (r : Observation κ γ ω α) (now : Nat) : Observation κ γ ω α :=
  { r with
    attempt := r.attempt + 1
    startedMs := now
    completedMs := none }

/-- An error keeps the latest success. -/
def Observation.sampled (r : Observation κ γ ω α) : Except String α → Observation κ γ ω α
  | .ok v => { r with
      latest := some v
      error := none }
  | .error e => { r with error := some e }

/-- A call that fails leaves the state as it was. -/
def settle {σ β : Type} (s : σ) : Except String (σ × β) → σ × Except String β
  | .ok (s', b) => (s', .ok b)
  | .error text => (s, .error text)

namespace Checking

variable (C : Checking κ γ ω α τ) (s : Observations κ γ ω α)

def read (key : κ) : Except String (Option (Observation κ γ ω α)) :=
  match s.rows.get key with
  | none => .ok none
  | some r => if C.readable r then .ok (some r) else .error C.invalid

/-- A row for another scope is as good as none. -/
def inScope (scope : ω) (read : Option (Observation κ γ ω α)) : Option (Observation κ γ ω α) :=
  read.filter fun r => r.scope = scope

def rowFor (key : κ) (scope : ω) (now : Nat) (drawn : Except String γ) :
    Option (Observation κ γ ω α) → Except String (Observation κ γ ω α)
  | some r => .ok r
  | none => drawn.map fun generation => .new key generation scope now

/-- An attempt is recorded before it is made, unless the last one is recent. -/
def begin_ (key : κ) (now : Nat) (drawn : Except String γ) :
    Except String (Observations κ γ ω α × Option (Observation κ γ ω α)) :=
  match s.scope key with
  | none => .ok (s, none)
  | some scope => do
    let read ← C.read s key
    if (inScope scope read).any fun r => now - r.startedMs < C.intervalMs then .ok (s, none)
    else do
      let r ← rowFor key scope now drawn (inScope scope read)
      require (r.attempt + 1 < 2 ^ 64) C.invalid
      .ok ({ s with rows := s.rows.put (r.started now) }, some (r.started now))

/-- Whether a result is news that has to be acknowledged. -/
def isNews (r r' : Observation κ γ ω α) : Bool :=
  (r.latest, r.error) ≠ (r'.latest, r'.error) &&
    (!C.quietBaseline || r.latest.isSome || r.error.isSome || r'.error.isSome)

/-- Whether the ticket may complete the row now. -/
def completes (ticket : τ) (now : Nat) (r : Observation κ γ ω α) : Bool :=
  C.answers ticket r && r.completedMs.isNone && r.startedMs ≤ now &&
    s.scope r.key = some r.scope

/-- The row after its attempt; a revision of news is counted. -/
def completed (now : Nat) (result : Except String α) (r : Observation κ γ ω α) :
    Observation κ γ ω α :=
  { r.sampled result with
    revision := if C.isNews r (r.sampled result) then r.revision + 1 else r.revision
    changedMs := if C.isNews r (r.sampled result) then some now else r.changedMs
    completedMs := some now }

def finish (ticket : τ) (now : Nat) (result : Except String α) :
    Except String (Observations κ γ ω α × Bool) := do
  require (C.accepts ticket result = true) C.invalid
  match ← C.read s (C.ticketKey ticket) with
  | none => .ok (s, false)
  | some r =>
    if C.completes s ticket now r then do
      require (C.isNews r (r.sampled result) = true → r.revision + 1 < 2 ^ 64) C.invalid
      .ok ({ s with rows := s.rows.put (C.completed now result r) }, true)
    else .ok (s, false)

def acknowledge (key : κ) (generation : γ) (revision : Nat) :
    Except String (Observations κ γ ω α × Bool) := do
  match ← C.read s key with
  | none => .ok (s, false)
  | some r =>
    if r.generation = generation ∧ r.revision = revision ∧ revision ≠ 0 ∧
        r.acknowledgedRevision ≠ revision ∧ s.scope key = some r.scope then
      .ok ({ s with rows := s.rows.put { r with acknowledgedRevision := revision } }, true)
    else .ok (s, false)

/-- A key without a scope has no row. -/
def rescope (key : κ) (scope : Option ω) : Observations κ γ ω α where
  scope k := if k = key then scope else s.scope k
  rows := if scope.isNone then s.rows.erase key else s.rows

def exec : Check κ γ ω α τ → Except String (Observations κ γ ω α × Checked κ γ ω α)
  | .rescope key scope => .ok (rescope s key scope, .rescoped)
  | .begin_ key now drawn => (C.begin_ s key now drawn).map fun x => (x.1, .begun x.2)
  | .finish ticket now result => (C.finish s ticket now result).map fun x => (x.1, .done x.2)
  | .acknowledge key generation revision =>
    (C.acknowledge s key generation revision).map fun x => (x.1, .done x.2)

def call (c : Check κ γ ω α τ) : Observations κ γ ω α × Except String (Checked κ γ ω α) :=
  settle s (C.exec s c)

/-- Any calls of the kinds that there are, from no rows. -/
def machine (scopes : (κ → Option ω) → Prop) (own : Check κ γ ω α τ → Prop) :
    Machine (Observations κ γ ω α) (Check κ γ ω α τ) (Except String (Checked κ γ ω α)) where
  init s := s.rows.rows = [] ∧ scopes s.scope
  step s c s' o := own c ∧ C.call s c = (s', o)

end Checking

end

end Agend.Library
