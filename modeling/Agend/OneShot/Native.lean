import Agend.OneShot.Data

/-! The replies as the protocol's types are read and written. -/
namespace Agend.OneShot

open Library
open Agend.Client (AskReply AskEntry AskThread AttentionRequiredData FleetView)
open Agend.Runtime (BackendSwitch)

def askReply : Serde AskReply :=
  .tagged "reply"
    [("choice", .map (.required "option" .string) .choice fun
        | .choice option => some option
        | _ => none),
      ("text", .map (.required "text" .string) .text fun
        | .text text => some text
        | _ => none)]
    (some .unknown)
    fun
      | .choice _ => "choice"
      | .text _ => "text"
      | .unknown => "unknown"

def askEntry : Serde AskEntry :=
  .tagged "entry"
    [("question", .map
        (.and (.required "from" .string) <|
          .and (.required "text" .string) <|
          .defaulted "options" (.vec .string))
        (fun (sender, text, options) => .question sender text options) fun
        | .question sender text options => some (sender, text, options)
        | _ => none),
      ("answer", .map
        (.and (.required "from" .string) <|
          .and (.required "source" answerSource) <|
          .required "reply" askReply)
        (fun (sender, source, reply) => .answer sender source reply) fun
        | .answer sender source reply => some (sender, source, reply)
        | _ => none),
      ("follow_up", .map
        (.and (.required "from" .string) <|
          .and (.required "text" .string) <|
          .defaulted "options" (.vec .string))
        (fun (sender, text, options) => .followUp sender text options) fun
        | .followUp sender text options => some (sender, text, options)
        | _ => none),
      ("resolution", .map (.and (.required "from" .string) <| .required "summary" .string)
        (fun (sender, summary) => .resolution sender summary) fun
        | .resolution sender summary => some (sender, summary)
        | _ => none)]
    (some .unknown)
    fun
      | .question .. => "question"
      | .answer .. => "answer"
      | .followUp .. => "follow_up"
      | .resolution .. => "resolution"
      | .unknown => "unknown"

def askThread : Serde AskThread :=
  .struct (.map
    (.and (.required "ask_id" .string) <|
      .and (.optional "task_id" (.option .string)) <|
      .required "entries" (.vec askEntry))
    (fun (askId, taskId, entries) => ⟨askId, taskId, entries⟩)
    fun r => some (r.askId, r.taskId, r.entries))

def attentionRequiredData : Serde AttentionRequiredData :=
  .struct (.map
    (.and (.required "reason" .string) <|
      .and (.optional "task_id" (.option .string)) <|
      .and (.optional "ask" (.option askThread)) <|
      .and (.optional "recap" (.option contextRecap)) <|
      .and (.skipped "attention_id" (.option .string)) <|
      .and (.skipped "unblocks" (.option .u32)) <|
      .and (.skipped "waiting_since_unix_ms" (.option .u64)) <|
      .and (.skipped "if_ignored" (.option .string)) <|
      .and (.skippedEmpty "actions" (.vec attentionAction)) <|
      .skipped "instance_id" (.option .string))
    (fun (reason, taskId, ask, recap, attentionId, unblocks, waitingSince, ifIgnored, actions,
        instanceId) =>
      ⟨reason, taskId, ask, recap, attentionId, unblocks, waitingSince, ifIgnored, actions,
        instanceId⟩)
    fun r => some (r.reason, r.taskId, r.ask, r.recap, r.attentionId, r.unblocks,
      r.waitingSinceUnixMs, r.ifIgnored, r.actions, r.instanceId))

def fleetView : Serde FleetView :=
  .struct (.map
    (.and (.skippedEmpty "read_keys" (.vec .string)) <|
      .and (.required "as_of_event_id" .u64) <|
      .and (.required "teams" (.vec teamView)) <|
      .and (.required "tasks" (.vec taskView)) <|
      .and (.required "instances" (.vec instanceView)) <|
      .required "attention" (.vec attentionRequiredData))
    (fun (readKeys, asOfEventId, teams, tasks, instances, attention) =>
      ⟨readKeys, asOfEventId, teams, tasks, instances, attention⟩)
    fun r => some (r.readKeys, r.asOfEventId, r.teams, r.tasks, r.instances, r.attention))

structure FleetData where
  requestId : String
  fleet : FleetView
  deriving DecidableEq

def fleetData : Serde FleetData :=
  .struct (.map (.and (.required "request_id" .string) <| .required "fleet" fleetView)
    (fun (requestId, fleet) => ⟨requestId, fleet⟩)
    fun r => some (r.requestId, r.fleet))

inductive CommandResult where
  | setupDiagnostic (data : SetupDiagnosticReply)
  | backendDiagnostic (data : BackendDiagnosticReply)
  | telegramPairing (data : Option PairingRecord)
  | backendSwitch (data : Option BackendSwitch)
  | messageOutcome (data : MessageOutcomeData)
  | driverStatus (data : DriverStatusData)
  | messageDelivery (data : Option MessageDeliveryData)
  | text (text : String)
  | accepted
  | status (data : StatusData)
  | messages (data : MessagesData)
  | taskCreated (data : TaskCreatedData)
  | askCreated (data : AskCreatedData)
  | instanceAdded (data : InstanceAddedData)
  | restarting (data : RestartingData)
  | unknown
  deriving DecidableEq

def commandResult : Serde CommandResult :=
  .tagged "result"
    [("setup_diagnostic", .map (.required "data" setupDiagnosticReply) .setupDiagnostic fun
        | .setupDiagnostic data => some data
        | _ => none),
      ("backend_diagnostic", .map (.required "data" backendDiagnosticReply) .backendDiagnostic fun
        | .backendDiagnostic data => some data
        | _ => none),
      ("telegram_pairing", .map (.optional "data" (.option pairingRecord)) .telegramPairing fun
        | .telegramPairing data => some data
        | _ => none),
      ("backend_switch", .map (.optional "data" (.option OneShot.backendSwitch)) .backendSwitch fun
        | .backendSwitch data => some data
        | _ => none),
      ("message_outcome", .map (.required "data" messageOutcomeData) .messageOutcome fun
        | .messageOutcome data => some data
        | _ => none),
      ("driver_status", .map (.required "data" driverStatusData) .driverStatus fun
        | .driverStatus data => some data
        | _ => none),
      ("message_delivery", .map (.optional "data" (.option messageDeliveryData)) .messageDelivery
        fun
        | .messageDelivery data => some data
        | _ => none),
      ("text", .map (.required "text" .string) .text fun
        | .text text => some text
        | _ => none),
      ("accepted", .map .unit (fun _ => .accepted) fun
        | .accepted => some ()
        | _ => none),
      ("status", .map (.required "data" statusData) .status fun
        | .status data => some data
        | _ => none),
      ("messages", .map (.required "data" messagesData) .messages fun
        | .messages data => some data
        | _ => none),
      ("task_created", .map (.required "data" taskCreatedData) .taskCreated fun
        | .taskCreated data => some data
        | _ => none),
      ("ask_created", .map (.required "data" askCreatedData) .askCreated fun
        | .askCreated data => some data
        | _ => none),
      ("instance_added", .map (.required "data" instanceAddedData) .instanceAdded fun
        | .instanceAdded data => some data
        | _ => none),
      ("restarting", .map (.required "data" restartingData) .restarting fun
        | .restarting data => some data
        | _ => none)]
    (some .unknown)
    fun
      | .setupDiagnostic _ => "setup_diagnostic"
      | .backendDiagnostic _ => "backend_diagnostic"
      | .telegramPairing _ => "telegram_pairing"
      | .backendSwitch _ => "backend_switch"
      | .messageOutcome _ => "message_outcome"
      | .driverStatus _ => "driver_status"
      | .messageDelivery _ => "message_delivery"
      | .text _ => "text"
      | .accepted => "accepted"
      | .status _ => "status"
      | .messages _ => "messages"
      | .taskCreated _ => "task_created"
      | .askCreated _ => "ask_created"
      | .instanceAdded _ => "instance_added"
      | .restarting _ => "restarting"
      | .unknown => "unknown"

structure ClientCommandResultData where
  requestId : String
  result : CommandResult
  deriving DecidableEq

def clientCommandResultData : Serde ClientCommandResultData :=
  .struct (.map (.and (.required "request_id" .string) <| .required "result" commandResult)
    (fun (requestId, result) => ⟨requestId, result⟩)
    fun r => some (r.requestId, r.result))

/-- The replies that no one-shot command waits for. -/
inductive Pushed where
  | event
  | terminalSnapshot
  | terminalBytes
  | terminalFrame
  | terminalControlAck
  | terminalControlChanged
  deriving DecidableEq

def Pushed.name : Pushed → String
  | .event => "event"
  | .terminalSnapshot => "terminal_snapshot"
  | .terminalBytes => "terminal_bytes"
  | .terminalFrame => "terminal_frame"
  | .terminalControlAck => "terminal_control_ack"
  | .terminalControlChanged => "terminal_control_changed"

/-- The data of the replies that no one-shot command waits for is `ρ`. -/
inductive ClientResponse (ρ : Type) where
  | claude (data : ClaudeReplyData)
  | hello (data : SelectedVersionData)
  | commandResult (data : ClientCommandResultData)
  | error (data : ErrorData)
  | pushed (kind : Pushed) (data : ρ)
  | fleet (data : FleetData)
  | unknown
  deriving DecidableEq

section

variable {ρ : Type} (pushed : Pushed → Serde ρ)

def pushedFields (kind : Pushed) : Fields (ClientResponse ρ) :=
  .map (.required "data" (pushed kind)) (.pushed kind)
    (fun
      | .pushed kind' data => if kind' = kind then some data else none
      | _ => none)
    (by
      intro data r h
      cases r with
      | pushed kind' data' =>
        dsimp only at h
        split at h
        next heq =>
          cases h
          rw [heq]
        next => cases h
      | _ => cases h)

def clientResponse : Serde (ClientResponse ρ) :=
  .tagged "type"
    [("claude", .map (.required "data" claudeReplyData) .claude fun
        | .claude data => some data
        | _ => none),
      ("hello", .map (.required "data" selectedVersionData) .hello fun
        | .hello data => some data
        | _ => none),
      ("command_result", .map (.required "data" clientCommandResultData) .commandResult fun
        | .commandResult data => some data
        | _ => none),
      ("error", .map (.required "data" errorData) .error fun
        | .error data => some data
        | _ => none),
      ("event", pushedFields pushed .event),
      ("terminal_snapshot", pushedFields pushed .terminalSnapshot),
      ("terminal_bytes", pushedFields pushed .terminalBytes),
      ("terminal_frame", pushedFields pushed .terminalFrame),
      ("terminal_control_ack", pushedFields pushed .terminalControlAck),
      ("terminal_control_changed", pushedFields pushed .terminalControlChanged),
      ("fleet", .map (.required "data" fleetData) .fleet fun
        | .fleet data => some data
        | _ => none)]
    (some .unknown)
    (fun
      | .claude _ => "claude"
      | .hello _ => "hello"
      | .commandResult _ => "command_result"
      | .error _ => "error"
      | .pushed kind _ => kind.name
      | .fleet _ => "fleet"
      | .unknown => "unknown")
    (by
      have hdata : "type" ∉ ["data"] ∧ ["data"].Nodup := by decide
      intro p hp
      simp only [List.mem_cons, List.not_mem_nil, or_false] at hp
      rcases hp with rfl | rfl | rfl | rfl | rfl | rfl | rfl | rfl | rfl | rfl | rfl <;>
        exact hdata)

end

end Agend.OneShot
