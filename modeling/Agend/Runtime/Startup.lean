import Agend.Runtime.Switch

/-! The startup of an agent in a new holder: the menus it may answer, a key for each, reserved
before it is typed. -/
namespace Agend.Runtime

open Library

structure KeyRecord where
  prompt : String
  attempt : String
  /-- `written`, or still the `intent`. -/
  written : Bool
  deriving DecidableEq

/-- A row of `claude_startup`; `keys` is its JSON object. -/
structure StartupRow where
  instanceId : String
  sessionId : String
  launchId : String
  generation : Option String
  halted : Bool
  manual : Bool
  keys : Table KeyRecord.prompt

structure ClaudeStartup where
  instanceId : String
  session : String
  launch : String
  deriving DecidableEq

/-- The key that a caller wants to type, or has typed. -/
structure ClaudeStartupKey where
  startup : ClaudeStartup
  generation : String
  prompt : String
  attempt : String
  deriving DecidableEq

namespace StartupRow

/-- The condition on the row under which a key is reserved. -/
def Open (r : StartupRow) (key : ClaudeStartupKey) : Prop :=
  r.sessionId = key.startup.session ∧ r.launchId = key.startup.launch ∧ r.halted = false ∧
    (r.generation = none ∨ r.generation = some key.generation) ∧ r.keys.get key.prompt = none ∧
    ∀ k ∈ r.keys.rows, k.written = true

instance {r : StartupRow} {key : ClaudeStartupKey} : Decidable (r.Open key) :=
  inferInstanceAs (Decidable (_ ∧ _))

/-- The row holds the attempt of the key, not finished. -/
def Holds (r : StartupRow) (key : ClaudeStartupKey) : Prop :=
  r.sessionId = key.startup.session ∧ r.launchId = key.startup.launch ∧
    r.generation = some key.generation ∧
    r.keys.get key.prompt = some ⟨key.prompt, key.attempt, false⟩

instance {r : StartupRow} {key : ClaudeStartupKey} : Decidable (r.Holds key) :=
  inferInstanceAs (Decidable (_ ∧ _))

def reserved (r : StartupRow) (key : ClaudeStartupKey) : StartupRow :=
  { r with
    generation := some key.generation
    keys := r.keys.put ⟨key.prompt, key.attempt, false⟩ }

def finished (r : StartupRow) (key : ClaudeStartupKey) (written : Bool) : StartupRow :=
  { r with
    keys := if written then r.keys.put ⟨key.prompt, key.attempt, true⟩
      else r.keys.erase key.prompt }

end StartupRow

/-- The startups beside the other tables, and every launch id that was generated. -/
structure Startups where
  base : Store
  rows : Table StartupRow.instanceId
  launches : List String

namespace Startups

variable (s : Startups)

def put (r : StartupRow) : Startups := { s with rows := s.rows.put r }

/-- A new holder; `launch` is generated. The reply says whether the daemon types the keys. -/
def beginClaudeStartup (id session launch : String) : Except String (Startups × Bool) :=
  match s.rows.get id with
  | some r => .ok (s.put ⟨id, session, launch, none, r.manual, r.manual, .empty⟩, !r.manual)
  | none => do
    require ((s.base.instances.get id).isSome = true) "FOREIGN KEY constraint failed"
    return (s.put ⟨id, session, launch, none, false, false, .empty⟩, true)

/-- The operator owns the startup of this agent from now on. -/
def manualClaudeStartup (id session launch : String) : Except String Startups := do
  require ((s.base.instances.get id).any (fun i =>
      i.sessionId = some session && i.backend = .claude) = true)
    "diagnostic Claude session does not match"
  match s.rows.get id with
  | some r => return s.put { r with manual := true, halted := true }
  | none => return s.put ⟨id, session, launch, none, true, true, .empty⟩

def haltClaudeStartup (id session : String) : Startups :=
  match s.rows.get id with
  | some r => if r.sessionId = session then s.put { r with halted := true } else s
  | none => s

/-- `Committed` and `Restoring` permit the menus of the launch that is being activated. -/
def startupPaused (instanceId : String) : Except String Bool :=
  (s.base.readSwitch instanceId).map fun record =>
    record.any fun r => r.phase = .prepared || r.phase = .rollbackPrepared

def reserveClaudeStartupKey (key : ClaudeStartupKey) : Except String (Startups × Bool) := do
  require (key.prompt ∈ ["trust_no", "trust_yes", "development"]) "unsupported startup key"
  let paused ← s.startupPaused key.startup.instanceId
  if paused then return (s, false)
  else
    match s.rows.get key.startup.instanceId, s.base.instances.get key.startup.instanceId with
    | some r, some i =>
      if r.Open key ∧ i.pushes key.startup.session then return (s.put (r.reserved key), true)
      else return (s, false)
    | _, _ => return (s, false)

def finishClaudeStartupKey (key : ClaudeStartupKey) (written : Bool) : Startups :=
  match s.rows.get key.startup.instanceId with
  | some r => if r.Holds key then s.put (r.finished key written) else s
  | none => s

end Startups

inductive StartupCall where
  /-- Any call on the other tables. -/
  | runtime (op : Operation)
  | begin_ (id session launch : String)
  | manual (id session launch : String)
  | halt (id session : String)
  | reserve (key : ClaudeStartupKey)
  | finish (key : ClaudeStartupKey) (written : Bool)

/-- The id that is generated for the call. -/
def StartupCall.launch : StartupCall → Option String
  | .begin_ _ _ launch | .manual _ _ launch => some launch
  | _ => none

inductive StartupReply where
  | runtime (reply : Reply)
  | bool (b : Bool)
  | unit
  deriving DecidableEq

namespace Startups

/-- The startup of a removed agent goes with it. -/
def cascade (s : Startups) (op : Operation) (base : Store) : Startups :=
  match op with
  | .removeInstance id => { s with base, rows := s.rows.erase id }
  | _ => { s with base }

def exec (s : Startups) : StartupCall → Except String (Startups × StartupReply)
  | .runtime op => (s.base.exec op).map fun (base, r) => (s.cascade op base, .runtime r)
  | .begin_ id session launch =>
    (s.beginClaudeStartup id session launch).map fun (s, b) => (s, .bool b)
  | .manual id session launch =>
    (s.manualClaudeStartup id session launch).map fun s => (s, .unit)
  | .halt id session => .ok (s.haltClaudeStartup id session, .unit)
  | .reserve key => (s.reserveClaudeStartupKey key).map fun (s, b) => (s, .bool b)
  | .finish key written => .ok (s.finishClaudeStartupKey key written, .unit)

/-- A call that fails leaves the tables as they were. -/
def call (s : Startups) (c : StartupCall) : Startups × Except String StartupReply :=
  match s.exec c with
  | .ok (s', reply) => (s', .ok reply)
  | .error text => (s, .error text)

/-- What is generated is new. -/
def next (s : Startups) (c : StartupCall) : Option (Startups × Except String StartupReply) :=
  if ∃ launch ∈ c.launch, launch ∈ s.launches then none
  else some ({ (s.call c).1 with launches := c.launch.toList ++ s.launches }, (s.call c).2)

end Startups

/-- Any calls in any order, from any agents, none of them started. -/
def startup : Machine Startups StartupCall (Except String StartupReply) where
  init s := s.rows.rows = []
  step s c s' o := s.next c = some (s', o)

end Agend.Runtime
