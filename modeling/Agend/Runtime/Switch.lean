import Agend.Library.Path
import Agend.Library.Trace
import Agend.Runtime.Claude
import Mathlib.Tactic.MkIffOfInductiveProp

/-! The switch of an agent's program, the launches it is proved by, and every call together. -/
namespace Agend.Runtime

open Library

/-- Whether the agent is configured as the record says, with `program`. -/
def configMatches (i : Instance) (record : BackendSwitch) (program : String) : Prop :=
  i.program = program ∧ i.backend.asStr = record.previous.artifact.backend ∧
    i.args = record.previous.configuredArgs ∧
    i.workingDirectory = record.previous.workingDirectory ∧
    i.delivery = record.previous.delivery ∧ i.sessionId = record.sessionId

instance {i : Instance} {record : BackendSwitch} {program : String} :
    Decidable (configMatches i record program) :=
  inferInstanceAs (Decidable (_ ∧ _))

/-- Whether the agent runs with the program and artifact, launched anew. -/
@[mk_iff]
structure ReadyWith (ready : Instance) (launch : ManagedLaunchIntent) (record : BackendSwitch)
    (program : String) (artifact : ImportedBackend) : Prop where
  id : ready.id = record.instanceId
  running : ready.status = .running
  started : ready.sessionStarted = true
  alive : ∃ pid ∈ ready.agentPid, 1 < pid
  config : configMatches ready record program
  binding : launch.binding ≠ record.previous.binding
  instanceId : launch.instanceId = record.instanceId
  artifact : launch.artifact = artifact
  program : launch.configuredProgram = program
  args : launch.configuredArgs = ready.args
  workingDirectory : launch.workingDirectory = ready.workingDirectory
  delivery : launch.delivery = ready.delivery
  session : launch.sessionId = ready.sessionId

instance {ready : Instance} {launch : ManagedLaunchIntent} {record : BackendSwitch}
    {program : String} {artifact : ImportedBackend} :
    Decidable (ReadyWith ready launch record program artifact) :=
  decidable_of_iff' _ (readyWith_iff ..)

namespace Store

variable (s : Store)

def addInstance (i : Instance) : Except String Store := do
  require (validateId i.id = true) (invalidId i.id)
  require (s.instances.get i.id = none) s!"instance {i.id}"
  return { s with instances := s.instances.put i }

/-- The launch and the switch of the agent go with it. -/
def removeInstance (id : String) : Store × Bool :=
  ({ s with
    instances := s.instances.erase id
    launches := s.launches.erase id
    switches := s.switches.erase id }, (s.instances.get id).isSome)

/-- Running also records that the session was started. -/
def setStatus (id : String) (status : InstanceStatus) : Except String Store := do
  let i ← okOr (s.instances.get id) s!"no instance {id}"
  return { s with
    instances := s.instances.put { i with
      status := status
      sessionStarted := status = .running || i.sessionStarted } }

def setSessionId (id session : String) : Except String Store := do
  let i ← okOr (s.instances.get id) s!"no instance {id}"
  return { s with instances := s.instances.put { i with sessionId := some session } }

def setAgentPid (id : String) (pid : Option Nat) : Except String Store := do
  let i ← okOr (s.instances.get id) s!"no instance {id}"
  return { s with instances := s.instances.put { i with agentPid := pid } }

def setInboxDelivery (id : String) : Store :=
  match s.instances.get id with
  | some i => { s with instances := s.instances.put { i with delivery := "inbox" } }
  | none => s

/-- `get` of the launch of an agent. -/
def readLaunch (id : String) : Except String (Option ManagedLaunchIntent) :=
  match s.launches.get id with
  | none => .ok none
  | some intent =>
    if isUuidV4 intent.binding then .ok (some intent)
    else .error "managed launch identity is inconsistent"

/-- Replaces the launch of an agent that is as the caller saw it; `binding` is allocated. -/
def prepareManagedLaunch (i : Instance) (launch : HolderLaunch) (artifact : ImportedBackend)
    (expectedBinding : Option String) (binding : String) :
    Except String (Store × ManagedLaunchIntent) := do
  require (launch.instanceId = i.id ∧ launch.backend = i.backend ∧
      launch.workingDirectory = i.workingDirectory ∧ artifact.wellFormed i.backend = true ∧
      launch.executable ≠ "")
    "managed launch does not match the instance and artifact"
  require (s.instances.get i.id = some i) "instance changed before managed launch reservation"
  let previous ← s.readLaunch i.id
  require (previous.map (·.binding) = expectedBinding)
    "managed launch reservation changed; reconcile before spawning"
  require (∀ other ∈ s.launches.rows, other.instanceId ≠ i.id → other.binding ≠ binding)
    "UNIQUE constraint failed: managed_launches.binding"
  let intent : ManagedLaunchIntent :=
    ⟨binding, i.id, artifact, i.program, i.args, i.sessionId, i.delivery, launch.executable,
      launch.args, launch.workingDirectory⟩
  return ({ s with launches := s.launches.put intent }, intent)

/-- `id` is unique. -/
def writeSwitch (record : BackendSwitch) : Except String Store := do
  require (∀ other ∈ s.switches.rows, other.instanceId ≠ record.instanceId → other.id ≠ record.id)
    "UNIQUE constraint failed: backend_switches.id"
  return { s with switches := s.switches.put record }

/-- The record that a call is about, when the caller saw it as it is. -/
def expectSwitch (expected : BackendSwitch) (error : String) : Except String BackendSwitch := do
  let found ← s.readSwitch expected.instanceId
  let current ← okOr found "backend switch missing"
  require (current = expected) error
  return current

def backendSwitchProblem (expected : BackendSwitch) (reason : String) (now : Nat) :
    Except String (Store × BackendSwitch) := do
  require (reason ≠ "" ∧ reason.utf8ByteSize ≤ 4096) "backend switch problem must be 1..4096 bytes"
  let current ← s.expectSwitch expected "backend switch changed or is no longer pending"
  require (current.phase.pending = true) "backend switch changed or is no longer pending"
  let record := { current with
    problem := some ⟨reason, (current.problem.map (·.sinceUnixMs)).getD now⟩ }
  if record = expected then return (s, record)
  else do
    let s ← s.writeSwitch record
    return (s, record)

/-- Reserves a switch without changing the program; `id` is allocated. -/
def prepareBackendSwitch (i : Instance) (target : ImportedBackend) (program : String)
    (expectedPrevious : Option String) (id : String) : Except String (Store × BackendSwitch) := do
  require (target.wellFormed i.backend = true ∧ Path.isAbsolute program = true)
    "invalid backend switch target"
  require (s.instances.get i.id = some i) "instance changed before backend switch"
  let old ← s.readSwitch i.id
  require (old.map (·.id) = expectedPrevious ∧ old.any (·.phase.pending) = false)
    "backend switch changed or is still pending"
  let found ← s.readLaunch i.id
  let previous ← okOr found "managed launch proof required before switching"
  let record : BackendSwitch :=
    ⟨id, i.id, previous, target, program, i.sessionId, .prepared, none, none⟩
  require (configMatches i record previous.configuredProgram ∧ target ≠ previous.artifact)
    "backend switch source changed or target is already selected"
  let s ← s.writeSwitch record
  return (s, record)

def cancelBackendSwitch (expected : BackendSwitch) : Except String (Store × BackendSwitch) := do
  let current ← s.expectSwitch expected
    "only the current prepared backend switch can be cancelled"
  require (current.phase = .prepared) "only the current prepared backend switch can be cancelled"
  let i ← okOr (s.instances.get current.instanceId) "backend switch instance disappeared"
  require (configMatches i current current.previous.configuredProgram)
    "backend switch configuration changed before cancellation"
  let record := { current with
    phase := .cancelled
    problem := none
    activationDeadlineUnixMs := none }
  let s ← s.writeSwitch record
  return (s, record)

/-- Saves the intent to roll back before any side effect. -/
def prepareBackendRollback (expected : BackendSwitch) : Except String (Store × BackendSwitch) := do
  let current ← s.expectSwitch expected
    "only the current committed or activated switch can prepare rollback"
  require (current.phase = .activated ∨ current.phase = .committed)
    "only the current committed or activated switch can prepare rollback"
  let i ← okOr (s.instances.get current.instanceId) "instance missing"
  require (configMatches i current current.targetProgram)
    "backend switch configuration changed before rollback"
  let record := { current with phase := .rollbackPrepared }
  let s ← s.writeSwitch record
  return (s, record)

/-- Moves the phase and the program together, from one program to the other. -/
def commitTo (current : BackendSwitch) (phase : BackendSwitchPhase) (source destination : String)
    (now : Nat) : Except String (Store × BackendSwitch) := do
  let i ← okOr (s.instances.get current.instanceId) "backend switch instance disappeared"
  require (configMatches i current source ∧ i.agentPid = none)
    "backend switch configuration changed or agent cleanup is unproven"
  let record := { current with
    phase := phase
    activationDeadlineUnixMs := some (min (now + activationWindowMs) (2 ^ 64 - 1)) }
  let s ← { s with instances := s.instances.put { i with program := destination } }.writeSwitch record
  return (s, record)

def commitBackendSwitch (expected : BackendSwitch) (rollback : Bool) (now : Nat) :
    Except String (Store × BackendSwitch) := do
  let current ← s.expectSwitch expected "backend switch changed; reconcile before retry"
  if rollback then do
    require (current.phase = .committed ∨ current.phase = .rollbackPrepared)
      "backend switch phase does not allow this operation"
    s.commitTo current .restoring current.targetProgram current.previous.configuredProgram now
  else do
    require (current.phase = .prepared) "backend switch phase does not allow this operation"
    let launch ← s.readLaunch current.instanceId
    require (launch = some current.previous)
      "source launch reservation changed before backend switch"
    s.commitTo current .committed current.previous.configuredProgram current.targetProgram now

/-- What a phase waits for: the program, its artifact and the phase after it. -/
def awaited (record : BackendSwitch) : Option (String × ImportedBackend × BackendSwitchPhase) :=
  match record.phase with
  | .committed => some (record.targetProgram, record.target, .activated)
  | .restoring =>
    some (record.previous.configuredProgram, record.previous.artifact, .rolledBack)
  | _ => none

/-- A committed program is not evidence: the agent runs it, from a launch of its own. -/
def finishBackendSwitch (expected : BackendSwitch) (ready : Instance)
    (launch : ManagedLaunchIntent) : Except String (Store × BackendSwitch) := do
  let current ← s.expectSwitch expected "backend switch changed; reconcile before finishing"
  let (program, artifact, phase) ← okOr (awaited current)
    "backend switch is not awaiting activation"
  let stored ← s.readLaunch current.instanceId
  require (s.instances.get current.instanceId = some ready ∧ stored = some launch ∧
      ReadyWith ready launch current program artifact)
    "backend activation snapshot or launch identity changed"
  let record := { current with
    phase := phase
    problem := none
    activationDeadlineUnixMs := none }
  let s ← s.writeSwitch record
  return (s, record)

end Store

/-- The calls, each one transaction. -/
inductive Operation where
  | claimMessage (new : NewMessage) (now : Nat)
  | advance (id : String) (next : DeliveryState) (turnId : Option String) (now : Nat)
  | reserve (new : NewClaudeDelivery) (now : Nat)
  | written (id delivery : String) (now : Nat)
  | acknowledge (ack : ClaudeAck) (eventId : String) (now : Nat)
  | abandon (id reason : String) (now : Nat)
  | abandonUnknown (id reason : String) (now : Nat)
  | release (message delivery : String)
  | addInstance (i : Instance)
  | removeInstance (id : String)
  | setStatus (id : String) (status : InstanceStatus)
  | setSessionId (id session : String)
  | setAgentPid (id : String) (pid : Option Nat)
  | setInboxDelivery (id : String)
  | prepareLaunch (i : Instance) (launch : HolderLaunch) (artifact : ImportedBackend)
      (expectedBinding : Option String) (binding : String)
  | prepareSwitch (i : Instance) (target : ImportedBackend) (program : String)
      (expectedPrevious : Option String) (id : String)
  | cancelSwitch (expected : BackendSwitch)
  | prepareRollback (expected : BackendSwitch)
  | commitSwitch (expected : BackendSwitch) (rollback : Bool) (now : Nat)
  | switchProblem (expected : BackendSwitch) (reason : String) (now : Nat)
  | finishSwitch (expected : BackendSwitch) (ready : Instance) (launch : ManagedLaunchIntent)
  deriving DecidableEq

inductive Reply where
  | claim (claim : Claim)
  | message (m : Option Message)
  | reservation (r : ClaudeReservation)
  | delivery (d : ClaudeDelivery)
  | ack (r : ClaudeAckResult)
  | unit
  | bool (b : Bool)
  | launch (intent : ManagedLaunchIntent)
  | backendSwitch (record : BackendSwitch)
  deriving DecidableEq

namespace Store

def exec (s : Store) : Operation → Except String (Store × Reply)
  | .claimMessage new now => (s.claimMessage new now).map fun (s, c) => (s, .claim c)
  | .advance id next turnId now => (s.advance id next turnId now).map fun (s, m) => (s, .message m)
  | .reserve new now => (s.reserve new now).map fun (s, r) => (s, .reservation r)
  | .written id delivery now => (s.written id delivery now).map fun (s, d) => (s, .delivery d)
  | .acknowledge ack eventId now => (s.acknowledge ack eventId now).map fun (s, r) => (s, .ack r)
  | .abandon id reason now => (s.abandon id reason now).map fun (s, d) => (s, .delivery d)
  | .abandonUnknown id reason now =>
    (s.abandonUnknownClaude id reason now).map fun s => (s, .unit)
  | .release message delivery => (s.releaseRefusedClaudeKey message delivery).map fun s => (s, .unit)
  | .addInstance i => (s.addInstance i).map fun s => (s, .unit)
  | .removeInstance id => .ok ((s.removeInstance id).1, .bool (s.removeInstance id).2)
  | .setStatus id status => (s.setStatus id status).map fun s => (s, .unit)
  | .setSessionId id session => (s.setSessionId id session).map fun s => (s, .unit)
  | .setAgentPid id pid => (s.setAgentPid id pid).map fun s => (s, .unit)
  | .setInboxDelivery id => .ok (s.setInboxDelivery id, .unit)
  | .prepareLaunch i launch artifact expectedBinding binding =>
    (s.prepareManagedLaunch i launch artifact expectedBinding binding).map fun (s, intent) =>
      (s, .launch intent)
  | .prepareSwitch i target program expectedPrevious id =>
    (s.prepareBackendSwitch i target program expectedPrevious id).map fun (s, record) =>
      (s, .backendSwitch record)
  | .cancelSwitch expected =>
    (s.cancelBackendSwitch expected).map fun (s, record) => (s, .backendSwitch record)
  | .prepareRollback expected =>
    (s.prepareBackendRollback expected).map fun (s, record) => (s, .backendSwitch record)
  | .commitSwitch expected rollback now =>
    (s.commitBackendSwitch expected rollback now).map fun (s, record) => (s, .backendSwitch record)
  | .switchProblem expected reason now =>
    (s.backendSwitchProblem expected reason now).map fun (s, record) => (s, .backendSwitch record)
  | .finishSwitch expected ready launch =>
    (s.finishBackendSwitch expected ready launch).map fun (s, record) => (s, .backendSwitch record)

/-- A call that fails leaves the tables as they were. -/
def call (s : Store) (op : Operation) : Store × Except String Reply :=
  match s.exec op with
  | .ok (s', reply) => (s', .ok reply)
  | .error text => (s, .error text)

end Store

/-- Any calls in any order, from empty tables. -/
def runtime : Machine Store Operation (Except String Reply) where
  init s := s = Store.empty
  step s op s' out := s.call op = (s', out)

end Agend.Runtime
