import Mathlib.Algebra.Group.Int.Defs
import Agend.Client.Protocol
import Mathlib.Tactic.MkIffOfInductiveProp

/-! A Telegram delivery: rendered parts, sent one at a time. -/
namespace Agend.Telegram

open Client

inductive NotificationSeverity where
  | info
  | attention
  | error
  deriving DecidableEq

structure Notification where
  severity : NotificationSeverity
  title : String
  body : String
  taskId : Option String
  deriving DecidableEq

structure TelegramDestination where
  botId : Nat
  chatId : Int
  topicId : Option Int
  deriving DecidableEq

structure TelegramDelivery where
  id : String
  destination : TelegramDestination
  notification : Notification
  parts : List String
  nextPart : Nat
  inFlight : Bool
  outcomeUnknown : Bool
  abandonedByOperator : Option String
  messageIds : List Int
  abandoned : Bool
  createdAtMs : Nat
  attention : Option AttentionRequiredData
  taskVersion : Option (Nat × Nat)
  deriving DecidableEq

/-- A current needs-you item. -/
structure TelegramNotice where
  topicId : Option Int
  key : String
  attention : Option AttentionRequiredData
  taskVersion : Option (Nat × Nat)
  notification : Notification
  deriving DecidableEq

def NotificationSeverity.text : NotificationSeverity → String
  | .info => "Info"
  | .attention => "Attention"
  | .error => "Error"

/-- UTF-16 units of a character. -/
def lenUtf16 (c : Char) : Nat :=
  if c.toNat < 0x10000 then 1 else 2

/-- Chunks of at most 4000 UTF-16 units; `chunk` holds the current one, last character first. -/
def chunks (chunk : List Char) (units : Nat) : List Char → List String
  | [] => [String.ofList chunk.reverse]
  | c :: rest =>
    if units + lenUtf16 c > 4000 then
      String.ofList chunk.reverse :: chunks [c] (lenUtf16 c) rest
    else chunks (c :: chunk) (units + lenUtf16 c) rest

def render (note : Notification) : List String :=
  let task := note.taskId.getD "—"
  let payload :=
    s!"[{note.severity.text}]\nTitle: {note.title}\nTask: {task}\n\n{note.body}"
  let texts := chunks [] 0 payload.toList
  let total := texts.length
  texts.mapIdx fun index chunk => s!"AgEnD · {index + 1}/{total}\n{chunk}\n——"

namespace TelegramDelivery

def new (id : String) (destination : TelegramDestination) (notification : Notification)
    (now : Nat) : TelegramDelivery where
  id := id
  destination := destination
  notification := notification
  parts := render notification
  nextPart := 0
  inFlight := false
  outcomeUnknown := false
  abandonedByOperator := none
  messageIds := []
  abandoned := false
  createdAtMs := now
  attention := none
  taskVersion := none

def complete (row : TelegramDelivery) : Bool :=
  row.nextPart = row.parts.length && !row.inFlight && !row.abandoned

/-- What a stored row satisfies. -/
@[mk_iff]
structure Valid (row : TelegramDelivery) : Prop where
  id : row.id ≠ ""
  bot : 0 < row.destination.botId ∧ row.destination.botId < 2 ^ 52
  chat : row.destination.chatId ≠ 0 ∧ row.destination.chatId.natAbs < 2 ^ 52
  topic : ∀ topic ∈ row.destination.topicId, 0 < topic
  parts : row.parts = render row.notification ∧ row.parts ≠ []
  next : row.nextPart ≤ row.parts.length
  messages : row.messageIds.length = row.nextPart
  positive : ∀ id ∈ row.messageIds, 0 < id
  unknown : row.outcomeUnknown = true → row.inFlight = true
  operator : row.abandonedByOperator.isSome = true →
    row.abandoned = true ∧ row.outcomeUnknown = true
  flight : row.inFlight = true → row.nextPart < row.parts.length

instance {row : TelegramDelivery} : Decidable row.Valid :=
  decidable_of_iff' _ (valid_iff row)

/-- Nothing more is sent for the row. -/
def Settled (row : TelegramDelivery) : Prop :=
  row.complete = true ∨ row.abandoned = true

end TelegramDelivery

end Agend.Telegram
