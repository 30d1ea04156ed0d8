import Mathlib.Algebra.Group.Nat.Defs
import Mathlib.Data.List.Sort
import Agend.Library.Table

/-! The part of the client protocol that the fleet view and its events are made of. -/
namespace Agend.Client

inductive AnswerSource where
  | tui
  | telegram
  | cli
  | unknown
  deriving DecidableEq

inductive AskReply where
  | choice (option : String)
  | text (text : String)
  | unknown
  deriving DecidableEq

/-- One turn of an ask thread. -/
inductive AskEntry where
  | question (sender text : String) (options : List String)
  | answer (sender : String) (source : AnswerSource) (reply : AskReply)
  | followUp (sender text : String) (options : List String)
  | resolution (sender summary : String)
  | unknown
  deriving DecidableEq

/-- One needs-you conversation. -/
structure AskThread where
  askId : String
  taskId : Option String
  entries : List AskEntry
  deriving DecidableEq

structure ContextRecap where
  goal : String
  decisions : List String
  asking : String
  next : String
  deriving DecidableEq

inductive AttentionAction where
  | retry
  | approve
  | requestChanges
  | acknowledge
  | abandon
  | unknown
  deriving DecidableEq

/-- A needs-you item. -/
structure AttentionRequiredData where
  reason : String
  taskId : Option String := none
  ask : Option AskThread := none
  recap : Option ContextRecap := none
  attentionId : Option String
  unblocks : Option Nat := none
  waitingSinceUnixMs : Option Nat := none
  ifIgnored : Option String := none
  actions : List AttentionAction := []
  instanceId : Option String := none
  deriving DecidableEq

structure AttentionResolvedData where
  attentionId : String
  action : AttentionAction
  deriving DecidableEq

structure AttentionReadData where
  readKey : String
  deriving DecidableEq

structure TeamView where
  teamId : String
  deriving DecidableEq

structure TaskPipelineView where
  repo : Option String
  stageKinds : List String
  stageAgents : List (Option String)
  blockReason : Option String
  archivePaths : List String
  deriving DecidableEq

structure TaskView where
  taskId : String
  title : String
  teamId : String
  status : String
  assignee : Option String := none
  stages : List String := []
  currentStage : Option String := none
  pipeline : Option TaskPipelineView := none
  deriving DecidableEq

/-- What an agent is doing. -/
inductive AgentState where
  | starting
  | working
  | idle
  | stuck
  | failed
  | unknown
  deriving DecidableEq

structure InstanceView where
  program : Option String
  instanceId : String
  teamId : String
  backend : String
  state : AgentState
  workingDirectory : Option String
  deriving DecidableEq

structure TaskChangedData where
  taskId : String
  summary : String
  task : Option TaskView
  deriving DecidableEq

structure MessageReceivedData where
  messageId : String
  sender : String
  deriving DecidableEq

structure InstanceChangedData where
  instanceId : String
  summary : String
  inst : Option InstanceView
  deriving DecidableEq

inductive DaemonEvent where
  | attentionRead (data : AttentionReadData)
  | attentionRequired (data : AttentionRequiredData)
  | taskChanged (data : TaskChangedData)
  | messageReceived (data : MessageReceivedData)
  | instanceChanged (data : InstanceChangedData)
  | askUpdated (data : AskThread)
  | attentionResolved (data : AttentionResolvedData)
  | unknown
  deriving DecidableEq

structure EventData where
  eventId : Nat
  event : DaemonEvent
  deriving DecidableEq

/-- Everything a client shows, as of one event id. -/
structure FleetView where
  readKeys : List String
  asOfEventId : Nat
  teams : List TeamView
  tasks : List TaskView
  instances : List InstanceView
  attention : List AttentionRequiredData
  deriving DecidableEq

def AskEntry.isQuestion : AskEntry → Bool
  | .question .. | .followUp .. => true
  | _ => false

/-- A follow-up is a new unread question. -/
def AttentionRequiredData.readKey (item : AttentionRequiredData) : Option String :=
  (item.attentionId.or (item.ask.map (·.askId))).map fun id =>
    let questions := match item.ask with
      | some ask => ask.entries.countP AskEntry.isQuestion
      | none => 0
    s!"{id}#{questions}"

/-- The largest 64-bit number. -/
def u64Max : Nat := 2 ^ 64 - 1

structure AttentionItem where
  id : String
  unblocks : Nat
  waitingSinceUnixMs : Nat
  deriving DecidableEq

/-- Most unblocked first, then oldest, then by id. -/
def AttentionItem.Precedes (a b : AttentionItem) : Prop :=
  b.unblocks < a.unblocks ∨ b.unblocks = a.unblocks ∧
    (a.waitingSinceUnixMs < b.waitingSinceUnixMs ∨
      a.waitingSinceUnixMs = b.waitingSinceUnixMs ∧ a.id ≤ b.id)

instance : DecidableRel AttentionItem.Precedes := fun _ _ =>
  inferInstanceAs (Decidable (_ ∨ _ ∧ (_ ∨ _ ∧ _)))

def order (items : List AttentionItem) : List AttentionItem :=
  items.insertionSort AttentionItem.Precedes

/-- A missing `unblocks` counts 0 and a missing wait start as the newest. -/
def AttentionRequiredData.orderItem (item : AttentionRequiredData) : Option AttentionItem :=
  item.attentionId.map fun id =>
    ⟨id, item.unblocks.getD 0, item.waitingSinceUnixMs.getD u64Max⟩

/-- The place of an item; one that is not found comes before every item that is. -/
def position (ordered : List AttentionItem) (item : AttentionRequiredData) : Nat :=
  match ordered.findIdx? (fun o => some o.id = item.attentionId) with
  | none => 0
  | some i => i + 1

/-- Items without an id go last, in their current order. -/
def orderAttention (items : List AttentionRequiredData) : List AttentionRequiredData :=
  let keyed := items.filter (·.attentionId.isSome)
  let rest := items.filter (!·.attentionId.isSome)
  let ordered := order (keyed.filterMap (·.orderItem))
  keyed.insertionSort (position ordered · ≤ position ordered ·) ++ rest

theorem orderAttention_perm (items : List AttentionRequiredData) :
    (orderAttention items).Perm items :=
  ((List.perm_insertionSort _ _).append_right _).trans (List.filter_append_perm _ items)

@[simp] theorem mem_orderAttention {item : AttentionRequiredData}
    {items : List AttentionRequiredData} : item ∈ orderAttention items ↔ item ∈ items :=
  (orderAttention_perm items).mem_iff

end Agend.Client
