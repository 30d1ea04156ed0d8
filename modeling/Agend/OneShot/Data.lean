import Agend.Client.Protocol
import Agend.OneShot.Diagnostics

/-! The data of the replies that have no tags in them. -/
namespace Agend.OneShot

open Library
open Agend.Client (AnswerSource ContextRecap AttentionAction TeamView TaskPipelineView TaskView
  AgentState InstanceView)

structure ProtocolVersion where
  major : Nat
  minor : Nat
  deriving DecidableEq

def protocolVersion : Serde ProtocolVersion :=
  .struct (.map (.and (.required "major" .u16) <| .required "minor" .u16)
    (fun (major, minor) => ⟨major, minor⟩)
    fun r => some (r.major, r.minor))

structure SelectedVersionData where
  selected : ProtocolVersion
  daemonVersion : Option String
  daemonPid : Option Nat
  bootId : Option Nat
  deriving DecidableEq

def selectedVersionData : Serde SelectedVersionData :=
  .struct (.map
    (.and (.required "selected" protocolVersion) <|
      .and (.skipped "daemon_version" (.option .string)) <|
      .and (.skipped "daemon_pid" (.option .u32)) <|
      .skipped "boot_id" (.option .u64))
    (fun (selected, daemonVersion, daemonPid, bootId) =>
      ⟨selected, daemonVersion, daemonPid, bootId⟩)
    fun r => some (r.selected, r.daemonVersion, r.daemonPid, r.bootId))

structure ErrorData where
  requestId : Option String
  code : String
  message : String
  deriving DecidableEq

def errorData : Serde ErrorData :=
  .struct (.map
    (.and (.optional "request_id" (.option .string)) <|
      .and (.required "code" .string) <|
      .required "message" .string)
    (fun (requestId, code, message) => ⟨requestId, code, message⟩)
    fun r => some (r.requestId, r.code, r.message))

/-! The Claude bridge. -/

structure ClaudeReceipt where
  messageId : String
  deliveryId : String
  sessionId : String
  deriving DecidableEq

def claudeReceipt : Serde ClaudeReceipt :=
  .struct (.map
    (.and (.required "message_id" .string) <|
      .and (.required "delivery_id" .string) <|
      .required "session_id" .string)
    (fun (messageId, deliveryId, sessionId) => ⟨messageId, deliveryId, sessionId⟩)
    fun r => some (r.messageId, r.deliveryId, r.sessionId))

structure ClaudePush where
  receipt : ClaudeReceipt
  content : String
  deriving DecidableEq

def claudePush : Serde ClaudePush :=
  .struct (.map (.and (.required "receipt" claudeReceipt) <| .required "content" .string)
    (fun (receipt, content) => ⟨receipt, content⟩)
    fun r => some (r.receipt, r.content))

structure ClaudeReplyData where
  requestId : String
  sessionId : Option String
  messages : List ClaudePush
  committed : Bool
  deriving DecidableEq

def claudeReplyData : Serde ClaudeReplyData :=
  .struct (.map
    (.and (.required "request_id" .string) <|
      .and (.optional "session_id" (.option .string)) <|
      .and (.required "messages" (.vec claudePush)) <|
      .required "committed" .bool)
    (fun (requestId, sessionId, messages, committed) => ⟨requestId, sessionId, messages, committed⟩)
    fun r => some (r.requestId, r.sessionId, r.messages, r.committed))

/-! Results of commands. -/

inductive MessageDeliveryState where
  | queued
  | sent
  | confirmed
  | failed
  | unknown
  deriving DecidableEq

def messageDeliveryState : Serde MessageDeliveryState :=
  .enum [("queued", .queued), ("sent", .sent), ("confirmed", .confirmed), ("failed", .failed)]
    (some .unknown)
    fun
      | .queued => "queued"
      | .sent => "sent"
      | .confirmed => "confirmed"
      | .failed => "failed"
      | .unknown => "unknown"

/-- Completion requires a backend success result and a nonempty assistant response. -/
inductive MessageOutcomeState where
  | running
  | completed
  | failed
  | unsupported
  | unknown
  deriving DecidableEq

def messageOutcomeState : Serde MessageOutcomeState :=
  .enum [("running", .running), ("completed", .completed), ("failed", .failed),
      ("unsupported", .unsupported)] (some .unknown)
    fun
      | .running => "running"
      | .completed => "completed"
      | .failed => "failed"
      | .unsupported => "unsupported"
      | .unknown => "unknown"

structure MessageOutcomeData where
  messageId : String
  instanceId : String
  turnId : Option String
  executionId : Option String
  state : MessageOutcomeState
  deriving DecidableEq

def messageOutcomeData : Serde MessageOutcomeData :=
  .struct (.map
    (.and (.required "message_id" .string) <|
      .and (.required "instance_id" .string) <|
      .and (.optional "turn_id" (.option .string)) <|
      .and (.optional "execution_id" (.option .string)) <|
      .required "state" messageOutcomeState)
    (fun (messageId, instanceId, turnId, executionId, state) =>
      ⟨messageId, instanceId, turnId, executionId, state⟩)
    fun r => some (r.messageId, r.instanceId, r.turnId, r.executionId, r.state))

structure MessageDeliveryData where
  messageId : String
  fromInstance : String
  toInstance : String
  state : MessageDeliveryState
  turnId : Option String
  attemptedAtUnixMs : Option Nat
  updatedAtUnixMs : Nat
  deriving DecidableEq

def messageDeliveryData : Serde MessageDeliveryData :=
  .struct (.map
    (.and (.required "message_id" .string) <|
      .and (.required "from_instance" .string) <|
      .and (.required "to_instance" .string) <|
      .and (.required "state" messageDeliveryState) <|
      .and (.optional "turn_id" (.option .string)) <|
      .and (.optional "attempted_at_unix_ms" (.option .u64)) <|
      .required "updated_at_unix_ms" .u64)
    (fun (messageId, fromInstance, toInstance, state, turnId, attempted, updated) =>
      ⟨messageId, fromInstance, toInstance, state, turnId, attempted, updated⟩)
    fun r => some (r.messageId, r.fromInstance, r.toInstance, r.state, r.turnId,
      r.attemptedAtUnixMs, r.updatedAtUnixMs))

structure InstanceAddedData where
  instanceId : String
  sessionId : Option String
  workingDirectory : String
  deriving DecidableEq

def instanceAddedData : Serde InstanceAddedData :=
  .struct (.map
    (.and (.required "instance_id" .string) <|
      .and (.optional "session_id" (.option .string)) <|
      .required "working_directory" .string)
    (fun (instanceId, sessionId, workingDirectory) => ⟨instanceId, sessionId, workingDirectory⟩)
    fun r => some (r.instanceId, r.sessionId, r.workingDirectory))

structure RestartingData where
  preflight : List String
  deriving DecidableEq

def restartingData : Serde RestartingData :=
  .struct (.map (.required "preflight" (.vec .string)) (fun preflight => ⟨preflight⟩)
    fun r => some r.preflight)

structure AskCreatedData where
  askId : String
  deriving DecidableEq

def askCreatedData : Serde AskCreatedData :=
  .struct (.map (.required "ask_id" .string) (fun askId => ⟨askId⟩) fun r => some r.askId)

structure ResultIdentity where
  stageId : String
  attempt : Nat
  deriving DecidableEq

def resultIdentity : Serde ResultIdentity :=
  .struct (.map (.and (.required "stage_id" .string) <| .required "attempt" .u32)
    (fun (stageId, attempt) => ⟨stageId, attempt⟩)
    fun r => some (r.stageId, r.attempt))

structure StatusData where
  taskId : Option String
  instanceId : Option String
  summary : String
  identity : Option ResultIdentity
  deriving DecidableEq

def statusData : Serde StatusData :=
  .struct (.map
    (.and (.optional "task_id" (.option .string)) <|
      .and (.optional "instance_id" (.option .string)) <|
      .and (.required "summary" .string) <|
      .skipped "identity" (.option resultIdentity))
    (fun (taskId, instanceId, summary, identity) => ⟨taskId, instanceId, summary, identity⟩)
    fun r => some (r.taskId, r.instanceId, r.summary, r.identity))

structure InboxMessage where
  messageId : String
  sender : String
  body : String
  createdAtUnixMs : Nat
  deriving DecidableEq

def inboxMessage : Serde InboxMessage :=
  .struct (.map
    (.and (.required "message_id" .string) <|
      .and (.required "from" .string) <|
      .and (.required "body" .string) <|
      .required "created_at_unix_ms" .u64)
    (fun (messageId, sender, body, createdAtUnixMs) => ⟨messageId, sender, body, createdAtUnixMs⟩)
    fun r => some (r.messageId, r.sender, r.body, r.createdAtUnixMs))

structure MessagesData where
  messages : List InboxMessage
  deriving DecidableEq

def messagesData : Serde MessagesData :=
  .struct (.map (.required "messages" (.vec inboxMessage)) (fun messages => ⟨messages⟩)
    fun r => some r.messages)

structure TaskCreatedData where
  taskId : String
  deriving DecidableEq

def taskCreatedData : Serde TaskCreatedData :=
  .struct (.map (.required "task_id" .string) (fun taskId => ⟨taskId⟩) fun r => some r.taskId)

/-! The fleet. -/

def agentState : Serde AgentState :=
  .enum [("starting", .starting), ("working", .working), ("idle", .idle), ("stuck", .stuck),
      ("failed", .failed)] (some .unknown)
    fun
      | .starting => "starting"
      | .working => "working"
      | .idle => "idle"
      | .stuck => "stuck"
      | .failed => "failed"
      | .unknown => "unknown"

/-- Point-in-time readiness. -/
structure DriverStatusData where
  instanceId : String
  state : AgentState
  deriving DecidableEq

def driverStatusData : Serde DriverStatusData :=
  .struct (.map (.and (.required "instance_id" .string) <| .required "state" agentState)
    (fun (instanceId, state) => ⟨instanceId, state⟩)
    fun r => some (r.instanceId, r.state))

def teamView : Serde TeamView :=
  .struct (.map (.required "team_id" .string) (fun teamId => ⟨teamId⟩) fun r => some r.teamId)

def taskPipelineView : Serde TaskPipelineView :=
  .struct (.map
    (.and (.optional "repo" (.option .string)) <|
      .and (.required "stage_kinds" (.vec .string)) <|
      .and (.required "stage_agents" (.vec (.option .string))) <|
      .and (.optional "block_reason" (.option .string)) <|
      .required "archive_paths" (.vec .string))
    (fun (repo, stageKinds, stageAgents, blockReason, archivePaths) =>
      ⟨repo, stageKinds, stageAgents, blockReason, archivePaths⟩)
    fun r => some (r.repo, r.stageKinds, r.stageAgents, r.blockReason, r.archivePaths))

def taskView : Serde TaskView :=
  .struct (.map
    (.and (.required "task_id" .string) <|
      .and (.required "title" .string) <|
      .and (.required "team_id" .string) <|
      .and (.required "status" .string) <|
      .and (.optional "assignee" (.option .string)) <|
      .and (.defaulted "stages" (.vec .string)) <|
      .and (.optional "current_stage" (.option .string)) <|
      .skipped "pipeline" (.option taskPipelineView))
    (fun (taskId, title, teamId, status, assignee, stages, currentStage, pipeline) =>
      ⟨taskId, title, teamId, status, assignee, stages, currentStage, pipeline⟩)
    fun r => some (r.taskId, r.title, r.teamId, r.status, r.assignee, r.stages, r.currentStage,
      r.pipeline))

def instanceView : Serde InstanceView :=
  .struct (.map
    (.and (.skipped "program" (.option .string)) <|
      .and (.required "instance_id" .string) <|
      .and (.required "team_id" .string) <|
      .and (.required "backend" .string) <|
      .and (.required "state" agentState) <|
      .skipped "working_directory" (.option .string))
    (fun (program, instanceId, teamId, backend, state, workingDirectory) =>
      ⟨program, instanceId, teamId, backend, state, workingDirectory⟩)
    fun r => some (r.program, r.instanceId, r.teamId, r.backend, r.state, r.workingDirectory))

def attentionAction : Serde AttentionAction :=
  .enum [("retry", .retry), ("approve", .approve), ("request_changes", .requestChanges),
      ("acknowledge", .acknowledge), ("abandon", .abandon)] (some .unknown)
    fun
      | .retry => "retry"
      | .approve => "approve"
      | .requestChanges => "request_changes"
      | .acknowledge => "acknowledge"
      | .abandon => "abandon"
      | .unknown => "unknown"

def contextRecap : Serde ContextRecap :=
  .struct (.map
    (.and (.required "goal" .string) <|
      .and (.defaulted "decisions" (.vec .string)) <|
      .and (.required "asking" .string) <|
      .required "next" .string)
    (fun (goal, decisions, asking, next) => ⟨goal, decisions, asking, next⟩)
    fun r => some (r.goal, r.decisions, r.asking, r.next))

def answerSource : Serde AnswerSource :=
  .enum [("tui", .tui), ("telegram", .telegram), ("cli", .cli)] (some .unknown)
    fun
      | .tui => "tui"
      | .telegram => "telegram"
      | .cli => "cli"
      | .unknown => "unknown"

end Agend.OneShot
