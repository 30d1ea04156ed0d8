import Agend.OneShot.Native

/-! The replies as the one-shot client reads them: a tag first, then the data of its type, from the
same text. The deadline is not reached. -/
namespace Agend.OneShot.Staged

open Library
open Agend.Client (AnswerSource AskReply AskEntry AskThread ContextRecap AttentionAction
  AttentionRequiredData TeamView TaskView InstanceView FleetView)

section

variable {α : Type} (finite : String → Bool)

def parse (read : Reads α) (text : Json) : Option α := read (.text finite) text

def data (read : Reads α) (value : Option Json) : Option α := value.bind (parse finite read)

/-- The data of a variant that may have none. -/
def optionalData (read : Reads (Option α)) : Option Json → Option (Option α)
  | some raw => parse finite read raw
  | none => some none

end

/-! What a text is read as. -/

structure Attention where
  reason : String
  taskId : Option String
  ask : Option Json
  recap : Option ContextRecap
  attentionId : Option String
  unblocks : Option Nat
  waitingSinceUnixMs : Option Nat
  ifIgnored : Option String
  actions : List AttentionAction
  instanceId : Option String

def Attention.read : Reads Attention := readStruct fun s ms => do
  let reason ← readField "reason" Serde.string.read none s ms
  let taskId ← readField "task_id" (readOption Serde.string.read) (some none) s ms
  let ask ← readField "ask" (readOption readRaw) (some none) s ms
  let recap ← readField "recap" (readOption contextRecap.read) (some none) s ms
  let attentionId ← readField "attention_id" (readOption Serde.string.read) (some none) s ms
  let unblocks ← readField "unblocks" (readOption Serde.u32.read) (some none) s ms
  let waitingSinceUnixMs ←
    readField "waiting_since_unix_ms" (readOption Serde.u64.read) (some none) s ms
  let ifIgnored ← readField "if_ignored" (readOption Serde.string.read) (some none) s ms
  let actions ← readField "actions" (readVec attentionAction.read) (some []) s ms
  let instanceId ← readField "instance_id" (readOption Serde.string.read) (some none) s ms
  return ⟨reason, taskId, ask, recap, attentionId, unblocks, waitingSinceUnixMs, ifIgnored, actions,
    instanceId⟩

structure View where
  readKeys : List String
  asOfEventId : Nat
  teams : List TeamView
  tasks : List TaskView
  instances : List InstanceView
  attention : List Attention

def View.read : Reads View := readStruct fun s ms => do
  let readKeys ← readField "read_keys" (readVec Serde.string.read) (some []) s ms
  let asOfEventId ← readField "as_of_event_id" Serde.u64.read none s ms
  let teams ← readField "teams" (readVec teamView.read) none s ms
  let tasks ← readField "tasks" (readVec taskView.read) none s ms
  let instances ← readField "instances" (readVec instanceView.read) none s ms
  let attention ← readField "attention" (readVec Attention.read) none s ms
  return ⟨readKeys, asOfEventId, teams, tasks, instances, attention⟩

structure Reply where
  requestId : String
  fleet : View

def Reply.read : Reads Reply := readStruct fun s ms => do
  let requestId ← readField "request_id" Serde.string.read none s ms
  let fleet ← readField "fleet" View.read none s ms
  return ⟨requestId, fleet⟩

structure Thread where
  askId : String
  taskId : Option String
  entries : List Json

def Thread.read : Reads Thread := readStruct fun s ms => do
  let askId ← readField "ask_id" Serde.string.read none s ms
  let taskId ← readField "task_id" (readOption Serde.string.read) (some none) s ms
  let entries ← readField "entries" (readVec readRaw) none s ms
  return ⟨askId, taskId, entries⟩

structure Tag where
  entry : String

def Tag.read : Reads Tag := readStruct fun s ms => do
  let entry ← readField "entry" Serde.string.read none s ms
  return ⟨entry⟩

structure Question where
  sender : String
  text : String
  options : List String

def Question.read : Reads Question := readStruct fun s ms => do
  let sender ← readField "from" Serde.string.read none s ms
  let text ← readField "text" Serde.string.read none s ms
  let options ← readField "options" (readVec Serde.string.read) (some []) s ms
  return ⟨sender, text, options⟩

structure Answer where
  sender : String
  source : AnswerSource
  reply : Json

def Answer.read : Reads Answer := readStruct fun s ms => do
  let sender ← readField "from" Serde.string.read none s ms
  let source ← readField "source" answerSource.read none s ms
  let reply ← readField "reply" readRaw none s ms
  return ⟨sender, source, reply⟩

structure Resolution where
  sender : String
  summary : String

def Resolution.read : Reads Resolution := readStruct fun s ms => do
  let sender ← readField "from" Serde.string.read none s ms
  let summary ← readField "summary" Serde.string.read none s ms
  return ⟨sender, summary⟩

structure ReplyTag where
  reply : String

def ReplyTag.read : Reads ReplyTag := readStruct fun s ms => do
  let reply ← readField "reply" Serde.string.read none s ms
  return ⟨reply⟩

structure Choice where
  option : String

def Choice.read : Reads Choice := readStruct fun s ms => do
  let option ← readField "option" Serde.string.read none s ms
  return ⟨option⟩

structure Text where
  text : String

def Text.read : Reads Text := readStruct fun s ms => do
  let text ← readField "text" Serde.string.read none s ms
  return ⟨text⟩

structure Envelope where
  kind : String
  data : Option Json

def Envelope.read : Reads Envelope := readStruct fun s ms => do
  let kind ← readField "type" Serde.string.read none s ms
  let data ← readField "data" (readOption readRaw) (some none) s ms
  return ⟨kind, data⟩

structure CommandEnvelope where
  result : String
  data : Option Json
  text : Option Json

def CommandEnvelope.read : Reads CommandEnvelope := readStruct fun s ms => do
  let result ← readField "result" Serde.string.read none s ms
  let data ← readField "data" (readOption readRaw) (some none) s ms
  let text ← readField "text" (readOption readRaw) (some none) s ms
  return ⟨result, data, text⟩

structure CommandReply where
  requestId : String
  result : Json

def CommandReply.read : Reads CommandReply := readStruct fun s ms => do
  let requestId ← readField "request_id" Serde.string.read none s ms
  let result ← readField "result" readRaw none s ms
  return ⟨requestId, result⟩

/-! What is made of it. -/

section

variable (finite : String → Bool)

def answer (bytes : Json) : Option AskReply := do
  let tag ← parse finite ReplyTag.read bytes
  match tag.reply with
  | "choice" => return .choice (← parse finite Choice.read bytes).option
  | "text" => return .text (← parse finite Text.read bytes).text
  | _ => return .unknown

def entry (bytes : Json) : Option AskEntry := do
  let tag ← parse finite Tag.read bytes
  match tag.entry with
  | "question" =>
    let question ← parse finite Question.read bytes
    return .question question.sender question.text question.options
  | "follow_up" =>
    let question ← parse finite Question.read bytes
    return .followUp question.sender question.text question.options
  | "answer" =>
    let value ← parse finite Answer.read bytes
    return .answer value.sender value.source (← answer finite value.reply)
  | "resolution" =>
    let value ← parse finite Resolution.read bytes
    return .resolution value.sender value.summary
  | _ => return .unknown

def thread (value : Json) : Option AskThread := do
  let value ← parse finite Thread.read value
  let entries ← value.entries.mapM (entry finite)
  return ⟨value.askId, value.taskId, entries⟩

def askOf : Option Json → Option (Option AskThread)
  | some raw => (thread finite raw).map some
  | none => some none

def item (item : Attention) : Option AttentionRequiredData := do
  let ask ← askOf finite item.ask
  return ⟨item.reason, item.taskId, ask, item.recap, item.attentionId, item.unblocks,
    item.waitingSinceUnixMs, item.ifIgnored, item.actions, item.instanceId⟩

def view (view : View) : Option FleetView := do
  let attention ← view.attention.mapM (item finite)
  return ⟨view.readKeys, view.asOfEventId, view.teams, view.tasks, view.instances, attention⟩

/-- `fleet::decode`. -/
def fleet (value : Option Json) : Option FleetData := do
  let value ← data finite Reply.read value
  return ⟨value.requestId, ← view finite value.fleet⟩

def result (envelope : CommandEnvelope) : Option CommandResult :=
  match envelope.result with
  | "text" => (data finite Serde.string.read envelope.text).map .text
  | "accepted" => some .accepted
  | "telegram_pairing" =>
    (optionalData finite (readOption pairingRecord.read) envelope.data).map .telegramPairing
  | "setup_diagnostic" =>
    (data finite setupDiagnosticReply.read envelope.data).map .setupDiagnostic
  | "backend_diagnostic" =>
    (data finite backendDiagnosticReply.read envelope.data).map .backendDiagnostic
  | "backend_switch" =>
    (optionalData finite (readOption backendSwitch.read) envelope.data).map .backendSwitch
  | "message_outcome" => (data finite messageOutcomeData.read envelope.data).map .messageOutcome
  | "driver_status" => (data finite driverStatusData.read envelope.data).map .driverStatus
  | "message_delivery" =>
    (optionalData finite (readOption messageDeliveryData.read) envelope.data).map .messageDelivery
  | "status" => (data finite statusData.read envelope.data).map .status
  | "messages" => (data finite messagesData.read envelope.data).map .messages
  | "task_created" => (data finite taskCreatedData.read envelope.data).map .taskCreated
  | "ask_created" => (data finite askCreatedData.read envelope.data).map .askCreated
  | "instance_added" => (data finite instanceAddedData.read envelope.data).map .instanceAdded
  | "restarting" => (data finite restartingData.read envelope.data).map .restarting
  | _ => some .unknown

def command (bytes : Json) : Option ClientCommandResultData := do
  let reply ← parse finite CommandReply.read bytes
  let envelope ← parse finite CommandEnvelope.read reply.result
  let result ← result finite envelope
  return ⟨reply.requestId, result⟩

def response {ρ : Type} (bytes : Json) : Option (ClientResponse ρ) := do
  let envelope ← parse finite Envelope.read bytes
  match envelope.kind with
  | "claude" => (data finite claudeReplyData.read envelope.data).map .claude
  | "hello" => (data finite selectedVersionData.read envelope.data).map .hello
  | "fleet" => (fleet finite envelope.data).map .fleet
  | "error" => (data finite errorData.read envelope.data).map .error
  | "command_result" => (envelope.data.bind (command finite)).map .commandResult
  | _ => return .unknown

end

end Agend.OneShot.Staged
