import Agend.Runtime.Startup

/-! The inputs to the agents while the supervisor switches their backends: each input registers
before it asks whether a switch pauses it, and a switch drains what was registered before. -/
namespace Agend.Delivery

open Library
open Agend.Runtime

inductive Kind where
  /-- A Claude RPC reserves content and writes its reply. -/
  | claude
  | startupKey
  | acquire
  | resize
  | input
  | fitReadonly
  | legacy
  deriving DecidableEq

inductive Stage where
  | registered
  /-- Between the permission and the end of the write. -/
  | permitted
  /-- The write ended, or was refused or cancelled. -/
  | ended
  /-- The token of the guard is taken, its entry not pruned. -/
  | taken
  deriving DecidableEq

/-- A task with its guard; the token is what `Arc::new` allocates. -/
structure Input where
  token : Nat
  instanceId : String
  kind : Kind
  stage : Stage
  deriving DecidableEq

/-- The weak tokens of the guards of one agent. -/
structure Active where
  instanceId : String
  tokens : List Nat
  deriving DecidableEq

/-- What a drain is for. -/
inductive Purpose where
  | prepare
  | activate (rollback : Bool)
  /-- Rollback of a candidate whose agent exited. -/
  | lost
  deriving DecidableEq

/-- Where the supervisor, which serves one event at a time, is in a switch. -/
inductive Task where
  | idle
  /-- `activate_switch` read its record. -/
  | admitting (record : BackendSwitch) (rollback : Bool)
  /-- `rollback_lost_candidate` read its record. -/
  | inspecting (record : BackendSwitch) (agentExited : Bool)
  | fencing (purpose : Purpose) (record : BackendSwitch)
  | draining (purpose : Purpose) (record : BackendSwitch) (fence : List Nat)
  | drained (purpose : Purpose) (record : BackendSwitch)
  /-- The holder was stopped. -/
  | stopped (purpose : Purpose) (record : BackendSwitch)
  deriving DecidableEq

structure Daemon where
  db : Startups
  /-- The server, and with it the tracker of replies, exists. -/
  serving : Bool
  active : Table Active.instanceId
  inputs : Table Input.token
  /-- The next token. -/
  next : Nat
  task : Task

/-- The calls that the supervisor makes on switches, and the reservations of the inputs. -/
def reserved : StartupCall → Bool
  | .runtime (.removeInstance _) | .runtime (.prepareSwitch _ _ _ _ _) | .runtime (.cancelSwitch _)
  | .runtime (.prepareRollback _) | .runtime (.commitSwitch _ _ _) | .runtime (.switchProblem _ _ _)
  | .runtime (.finishSwitch _ _ _) | .runtime (.reserve _ _) | .reserve _ => true
  | _ => false

/-- What the supervisor does to a switch between two transitions. -/
def supervised : StartupCall → Bool
  | .runtime (.removeInstance _) | .runtime (.cancelSwitch _) | .runtime (.switchProblem _ _ _)
  | .runtime (.finishSwitch _ _ _) => true
  | _ => false

/-- The phases that a transition starts from. -/
def StartsFrom (rollback : Bool) (phase : BackendSwitchPhase) : Prop :=
  phase = (if rollback then .committed else .prepared) ∨
    rollback = true ∧ (phase = .activated ∨ phase = .rollbackPrepared)

instance {rollback : Bool} {phase : BackendSwitchPhase} : Decidable (StartsFrom rollback phase) :=
  inferInstanceAs (Decidable (_ ∨ _))

namespace Daemon

variable (d : Daemon)

/-- The strong count of a token. -/
def strong (token : Nat) : Bool := (d.inputs.get token).any (·.stage ≠ .taken)

/-- `Replies::fence`. -/
def fence (instanceId : String) : List Nat :=
  ((d.active.get instanceId).map (·.tokens)).getD []

/-- `ReplyFence::drained`. -/
def drained (fence : List Nat) : Bool := fence.all fun token => !d.strong token

/-- `Replies::begin`. -/
def begin_ (instanceId : String) (kind : Kind) : Daemon :=
  { d with
    active := d.active.put ⟨instanceId, d.fence instanceId ++ [d.next]⟩
    inputs := d.inputs.put ⟨d.next, instanceId, kind, .registered⟩
    next := d.next + 1 }

def move (i : Input) (stage : Stage) : Daemon :=
  { d with inputs := d.inputs.put { i with stage } }

/-- The second half of the drop of a guard. -/
def prune (i : Input) : Daemon :=
  let d := { d with inputs := d.inputs.erase i.token }
  match d.active.get i.instanceId with
  | none => d
  | some row =>
    let tokens := row.tokens.filter d.strong
    if tokens = [] then { d with active := d.active.erase i.instanceId }
    else { d with active := d.active.put { row with tokens } }

/-- A reservation of the content of one message. -/
def reserve (i : Input) (new : NewClaudeDelivery) (now : Nat) : Daemon × Option Input :=
  match d.db.call (.runtime (.reserve new now)) with
  | (db, .ok (.runtime (.reservation (.started _)))) =>
    (move { d with db } i .permitted, some i)
  | (db, _) => ({ d with db }, none)

def reserveKey (i : Input) (key : ClaudeStartupKey) : Daemon × Option Input :=
  match d.db.call (.reserve key) with
  | (db, .ok (.bool true)) => (move { d with db } i .permitted, some i)
  | (db, _) => (move { d with db } i .ended, none)

/-- `Actor::switch_input`. -/
def switchInput (i : Input) : Daemon × Option Input :=
  match d.db.base.deliveryPaused i.instanceId with
  | .ok false => (d.move i .permitted, some i)
  | _ => (d.move i .ended, none)

def with_ (task : Task) : Daemon := { d with task }

/-- The record is saved before the fence of the drain is taken. -/
def prepare (i : Instance) (target : ImportedBackend) (program : String)
    (expectedPrevious : Option String) (id : String) : Daemon :=
  match d.db.call (.runtime (.prepareSwitch i target program expectedPrevious id)) with
  | (db, .ok (.runtime (.backendSwitch record))) => { d with db, task := .fencing .prepare record }
  | (db, _) => { d with db }

/-- The record of a transition, as the supervisor reads it. -/
def readSwitch (instanceId : String) : Option BackendSwitch :=
  match d.db.base.readSwitch instanceId with
  | .ok record => record
  | .error _ => none

/-- The entry of `activate_switch`, up to its first check. -/
def activate (instanceId switchId : String) (rollback : Bool) : Daemon :=
  match d.readSwitch instanceId with
  | none => d.with_ .idle
  | some record =>
    if record.id ≠ switchId then d.with_ .idle
    else if StartsFrom rollback record.phase then d.with_ (.admitting record rollback)
    else d.with_ .idle

/-- Saves the rollback before any side effect. -/
def prepareRollback (purpose : Purpose) (record : BackendSwitch) : Daemon :=
  match d.db.call (.runtime (.prepareRollback record)) with
  | (db, .ok (.runtime (.backendSwitch record))) => { d with db, task := .fencing purpose record }
  | (db, _) => { d with db, task := .idle }

/-- The rest of `activate_switch` up to its drain; whether the destination is admitted is asked of
the runtime. -/
def admitted (record : BackendSwitch) (rollback : Bool) : Daemon :=
  if rollback ∧ (record.phase = .activated ∨ record.phase = .committed) then
    d.prepareRollback (.activate true) record
  else d.with_ (.fencing (.activate rollback) record)

/-- The entry of `rollback_lost_candidate`. -/
def lost (instanceId : String) (agentExited : Bool) : Daemon :=
  match d.readSwitch instanceId with
  | none => d
  | some record =>
    if record.phase = .committed ∨ agentExited ∧ record.phase = .rollbackPrepared then
      d.with_ (.inspecting record agentExited)
    else d

/-- The death is established; its holder may still run. -/
def inspected (record : BackendSwitch) (agentExited running : Bool) : Daemon :=
  if running = false then d.activate record.instanceId record.id true
  else if agentExited = false then d.with_ .idle
  else if record.phase = .committed then d.prepareRollback .lost record
  else d.with_ (.fencing .lost record)

/-- The start of `drain_switch_replies`. -/
def takeFence (purpose : Purpose) (record : BackendSwitch) : Daemon :=
  if d.serving then d.with_ (.draining purpose record (d.fence record.instanceId))
  else d.with_ .idle

def drainEnds (purpose : Purpose) (record : BackendSwitch) : Daemon :=
  if purpose = .prepare then d.with_ .idle else d.with_ (.drained purpose record)

def commit (record : BackendSwitch) (rollback : Bool) (now : Nat) : Daemon :=
  { d with db := (d.db.call (.runtime (.commitSwitch record rollback now))).1, task := .idle }

end Daemon

/-- A step of a task that holds a guard. -/
inductive InputEvent where
  | reserve (new : NewClaudeDelivery) (now : Nat)
  | reserveKey (key : ClaudeStartupKey)
  | switchInput
  /-- The write ends. -/
  | written
  /-- There is nothing to write, or the task is dropped at an await. -/
  | cancelled
  /-- The first half of the drop of the guard. -/
  | take
  | prune

/-- A step of the supervisor; the flags are what it asks of the runtime. -/
inductive TaskEvent where
  | supervise (call : StartupCall)
  | prepare (i : Instance) (target : ImportedBackend) (program : String)
      (expectedPrevious : Option String) (id : String)
  | activate (instanceId switchId : String) (rollback : Bool)
  | admitted
  | lost (instanceId : String) (agentExited : Bool)
  | inspected (running : Bool)
  | fence
  | drained
  /-- A check fails, a wait takes too long, or there is nothing more to do. -/
  | abandon
  | stop
  /-- After the stop of a lost candidate. -/
  | resume
  | commit (now : Nat)

inductive Event where
  /-- A task registers. -/
  | begin_ (instanceId : String) (kind : Kind)
  | input (token : Nat) (e : InputEvent)
  | task (e : TaskEvent)
  /-- Any other call on the tables, by any task. -/
  | store (call : StartupCall)
  | restart
  | serve

namespace Daemon

def stepInput (d : Daemon) (i : Input) : InputEvent → Option (Daemon × Option Input)
  | .reserve new now =>
    if i.kind = .claude ∧ new.instanceId = i.instanceId ∧
        (i.stage = .registered ∨ i.stage = .permitted) then some (d.reserve i new now)
    else none
  | .reserveKey key =>
    if i.kind = .startupKey ∧ key.startup.instanceId = i.instanceId ∧ i.stage = .registered then
      some (d.reserveKey i key)
    else none
  | .switchInput =>
    if i.kind ≠ .claude ∧ i.kind ≠ .startupKey ∧ i.stage = .registered then
      some (d.switchInput i)
    else none
  | .written => if i.stage = .permitted then some (d.move i .ended, none) else none
  | .cancelled =>
    if i.stage = .registered ∨ i.stage = .permitted then some (d.move i .ended, none) else none
  | .take => if i.stage = .ended then some (d.move i .taken, none) else none
  | .prune => if i.stage = .taken then some (d.prune i, none) else none

def stepTask (d : Daemon) : Task → TaskEvent → Option Daemon
  | .idle, .supervise call =>
    if supervised call then some { d with db := (d.db.call call).1 } else none
  | .idle, .prepare i target program expectedPrevious id =>
    some (d.prepare i target program expectedPrevious id)
  | .idle, .activate instanceId switchId rollback => some (d.activate instanceId switchId rollback)
  | .admitting record rollback, .admitted => some (d.admitted record rollback)
  | .idle, .lost instanceId agentExited => some (d.lost instanceId agentExited)
  | .inspecting record agentExited, .inspected running =>
    some (d.inspected record agentExited running)
  | .fencing purpose record, .fence => some (d.takeFence purpose record)
  | .draining purpose record fence, .drained =>
    if d.drained fence then some (d.drainEnds purpose record) else none
  | .drained purpose record, .stop => some (d.with_ (.stopped purpose record))
  | .stopped .lost record, .resume => some (d.activate record.instanceId record.id true)
  | .drained (.activate rollback) record, .commit now
  | .stopped (.activate rollback) record, .commit now => some (d.commit record rollback now)
  | _, .abandon => some (d.with_ .idle)
  | _, _ => none

/-- One step, and the input that it permits. -/
def step (d : Daemon) : Event → Option (Daemon × Option Input)
  | .begin_ instanceId kind => if d.serving then some (d.begin_ instanceId kind, none) else none
  | .input token e => (d.inputs.get token).bind fun i => d.stepInput i e
  | .task e => (d.stepTask d.task e).map fun d => (d, none)
  | .store call => if reserved call then none else some ({ d with db := (d.db.call call).1 }, none)
  | .restart => some ({ d with
      serving := false
      active := .empty
      inputs := .empty
      task := .idle }, none)
  | .serve => some ({ d with serving := true }, none)

end Daemon

/-- Any steps in any order, from a daemon that started. -/
def switching : Machine Daemon Event (Option Input) where
  init d := d.active = .empty ∧ d.inputs = .empty ∧ d.task = .idle
  step d e d' o := d.step e = some (d', o)

end Agend.Delivery
