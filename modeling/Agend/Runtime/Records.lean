import Agend.Pipeline.Workflow
import Agend.Library.Table

/-! Agents, the messages pushed to them, and the switch of an agent's program. -/
namespace Agend.Runtime

inductive Backend where
  | claude
  | codex
  | opencode
  deriving DecidableEq

def Backend.asStr : Backend → String
  | .claude => "claude"
  | .codex => "codex"
  | .opencode => "opencode"

inductive InstanceStatus where
  | new
  | running
  | failed
  deriving DecidableEq

structure Instance where
  id : String
  backend : Backend
  program : String
  args : List String
  workingDirectory : String
  sessionId : Option String
  status : InstanceStatus
  sessionStarted : Bool
  agentPid : Option Nat
  legacyNoThread : Bool
  delivery : String
  deriving DecidableEq

inductive BusyLevel where
  | queue
  | steer
  | interrupt
  deriving DecidableEq

inductive DeliveryState where
  | queued
  | sent
  | confirmed
  | failed
  deriving DecidableEq

/-- A queued message may fail before it is ever sent; nothing leaves a terminal state. -/
def DeliveryState.canTransitionTo : DeliveryState → DeliveryState → Bool
  | .queued, .sent | .queued, .failed | .sent, .confirmed | .sent, .failed => true
  | _, _ => false

structure NewMessage where
  id : String
  fromInstance : String
  toInstance : String
  taskId : Option String
  body : String
  level : BusyLevel
  deriving DecidableEq

structure Message where
  id : String
  fromInstance : String
  toInstance : String
  taskId : Option String
  body : String
  level : BusyLevel
  state : DeliveryState
  turnId : Option String
  createdAtUnixMs : Nat
  updatedAtUnixMs : Nat
  attemptedAtUnixMs : Option Nat
  deriving DecidableEq

def Message.sameAs (m : Message) (new : NewMessage) : Bool :=
  m.id = new.id && m.fromInstance = new.fromInstance && m.toInstance = new.toInstance &&
    m.taskId = new.taskId && m.body = new.body && m.level = new.level

inductive ClaudeRoute where
  | channel
  | stop
  deriving DecidableEq

structure NewClaudeDelivery where
  messageId : String
  deliveryId : String
  instanceId : String
  sessionId : String
  route : ClaudeRoute
  deriving DecidableEq

structure ClaudeAttempt where
  deliveryId : String
  sessionId : String
  route : ClaudeRoute
  startedAtUnixMs : Nat
  sentAtUnixMs : Option Nat
  confirmedAtUnixMs : Option Nat
  deriving DecidableEq

structure ClaudeDelivery where
  messageId : String
  instanceId : String
  attempt : Option ClaudeAttempt
  abandonedAtUnixMs : Option Nat
  abandonmentReason : Option String
  deriving DecidableEq

namespace ClaudeDelivery

def mayStart (d : ClaudeDelivery) (m : Message) : Bool :=
  d.messageId = m.id && d.instanceId = m.toInstance && m.state = .queued &&
    m.attemptedAtUnixMs.isNone && d.attempt.isNone && d.abandonedAtUnixMs.isNone

def outcomeUnknown (d : ClaudeDelivery) (m : Message) : Bool :=
  d.messageId = m.id && d.instanceId = m.toInstance && m.state = .queued &&
    d.abandonedAtUnixMs.isNone &&
    (d.attempt.any (fun a => a.sentAtUnixMs.isNone && a.confirmedAtUnixMs.isNone) ||
      (d.attempt.isNone && m.attemptedAtUnixMs.isSome))

end ClaudeDelivery

inductive ClaudeReservation where
  | started (delivery : ClaudeDelivery)
  | paused
  | existing (delivery : ClaudeDelivery)
  deriving DecidableEq

structure ClaudeAck where
  messageId : String
  deliveryId : String
  instanceId : String
  sessionId : String
  deriving DecidableEq

inductive ClaudeAckResult where
  | confirmed
  | alreadyConfirmed
  deriving DecidableEq

structure DriverEvent where
  id : String
  instanceId : String
  sessionId : String
  kind : String
  payload : String
  occurredAtUnixMs : Nat
  replayed : Bool
  deriving DecidableEq

structure ImportedBackend where
  format : Nat
  backend : String
  version : String
  sha256 : String
  bytes : Nat
  deriving DecidableEq

structure HolderLaunch where
  instanceId : String
  backend : Backend
  executable : String
  args : List String
  workingDirectory : String
  deriving DecidableEq

structure ManagedLaunchIntent where
  binding : String
  instanceId : String
  artifact : ImportedBackend
  configuredProgram : String
  configuredArgs : List String
  sessionId : Option String
  delivery : String
  executable : String
  args : List String
  workingDirectory : String
  deriving DecidableEq

inductive BackendSwitchPhase where
  | prepared
  | cancelled
  | committed
  | activated
  | rollbackPrepared
  | restoring
  | rolledBack
  deriving DecidableEq

def BackendSwitchPhase.pending : BackendSwitchPhase → Bool
  | .prepared | .committed | .rollbackPrepared | .restoring => true
  | .cancelled | .activated | .rolledBack => false

structure BackendSwitchProblem where
  reason : String
  sinceUnixMs : Nat
  deriving DecidableEq

structure BackendSwitch where
  id : String
  instanceId : String
  previous : ManagedLaunchIntent
  target : ImportedBackend
  targetProgram : String
  sessionId : Option String
  phase : BackendSwitchPhase
  problem : Option BackendSwitchProblem
  activationDeadlineUnixMs : Option Nat
  deriving DecidableEq

def activationWindowMs : Nat := 300000

/-- The text of a random UUID: lower case, version 4. -/
def isUuidV4 (id : String) : Bool :=
  let chars := id.toList
  chars.length = 36 && chars[14]? = some '4' && (chars[19]?.any fun c => c ∈ ['8', '9', 'a', 'b']) &&
    chars.zipIdx.all fun (c, i) =>
      if i ∈ [8, 13, 18, 23] then c = '-' else c.isDigit || ('a' ≤ c && c ≤ 'f')

def maxId : Nat := 24

/-- Names the files of an agent. -/
def validateId (id : String) : Bool :=
  id ≠ "" && id.utf8ByteSize ≤ maxId && id.toList.all fun c => c.isLower || c.isDigit || c = '-'

def invalidId (id : String) : String :=
  s!"invalid instance id {reprStr id}: use 1-{maxId} characters from a-z 0-9 -"

def validVersion (version : String) : Bool :=
  version.utf8ByteSize ≤ 80 && (version.toList.head?.any Char.isAlphanum) &&
    version.toList.all fun c => c.isAlphanum || c ∈ ['.', '-', '_', '+']

def isSha256 (text : String) : Bool :=
  text.utf8ByteSize = 64 && text.toList.all fun c =>
    c.isDigit || ('a' ≤ c && c ≤ 'f') || ('A' ≤ c && c ≤ 'F')

/-- Well-formed, for the backend of the agent. -/
def ImportedBackend.wellFormed (artifact : ImportedBackend) (backend : Backend) : Bool :=
  artifact.format = 1 && artifact.backend = backend.asStr && validVersion artifact.version &&
    artifact.bytes ≠ 0 && isSha256 artifact.sha256

end Agend.Runtime
