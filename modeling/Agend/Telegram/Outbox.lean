import Agend.Telegram.Delivery
import Agend.Pipeline.Workflow
import Agend.Library.Table
import Agend.Library.Trace

/-! The outbox: whole notifications enqueued, each part saved before it is sent. -/
namespace Agend.Telegram

open Client Library
open Pipeline (isBlank)

/-- The delivery that stands for a needs-you item. -/
structure NoticeRow where
  sourceId : String
  deliveryId : String
  active : Bool
  deriving DecidableEq

/-- An inbound update that was claimed. -/
structure UpdateRow where
  botId : Nat
  updateId : Int
  fingerprint : String
  outcome : Option String
  deliveryId : Option String
  deriving DecidableEq

def UpdateRow.key (row : UpdateRow) : Nat × Int :=
  (row.botId, row.updateId)

/-- The tables `telegram_outbox`, `telegram_notices` and `telegram_updates`. -/
structure Store where
  outbox : Table TelegramDelivery.id
  notices : Table NoticeRow.sourceId
  updates : Table UpdateRow.key

def Store.empty : Store :=
  ⟨.empty, .empty, .empty⟩

def invalidDelivery : String := "invalid Telegram delivery state"

namespace Store

variable (s : Store)

def load (id : String) : Except String (Option TelegramDelivery) :=
  match s.outbox.get id with
  | none => .ok none
  | some row => if row.Valid then .ok (some row) else .error invalidDelivery

/-- The row that stands for a notice, if there is one. -/
def loadOld : Option NoticeRow → Except String (Option TelegramDelivery)
  | none => .ok none
  | some old => s.load old.deliveryId

def save (row : TelegramDelivery) : Except String Store :=
  if row.Valid then
    match s.outbox.get row.id with
    | none => .ok s
    | some _ => .ok { s with outbox := s.outbox.put row }
  else .error invalidDelivery

def insert (row : TelegramDelivery) : Except String Store :=
  match s.outbox.get row.id with
  | none => .ok { s with outbox := s.outbox.put row }
  | some _ => .error "UNIQUE constraint failed: telegram_outbox.id"

/-- A row that was not completely sent is given up. -/
def giveUp (existing : Option TelegramDelivery) : Except String Store :=
  match existing with
  | none => .ok s
  | some row => if row.complete then .ok s else s.save { row with abandoned := true }

/-- `UPDATE telegram_notices SET active=0 WHERE source_id=key`. -/
def deactivate (key : String) : Store :=
  { s with
    notices := s.notices.update
      (fun notice => if notice.sourceId = key then { notice with active := false } else notice)
      (fun notice => by split_ifs <;> rfl) }

end Store

/-- The transaction of `observe`: the tables, the rows to return and the ids still to allocate. -/
structure Observing where
  tx : Store
  pending : List TelegramDelivery
  fresh : List String

/-- Whether the stored row already says what the notice says. -/
def TelegramNotice.matches (notice : TelegramNotice) (row : TelegramDelivery) : Bool :=
  row.notification = notice.notification && row.attention = notice.attention &&
    row.taskVersion = notice.taskVersion

/-- A new row for a notice, routed to its topic. -/
def TelegramNotice.row (notice : TelegramNotice) (destination : TelegramDestination) (now : Nat)
    (id : String) : TelegramDelivery :=
  { TelegramDelivery.new id
      { destination with topicId := notice.topicId.or destination.topicId } notice.notification now
    with
    attention := notice.attention
    taskVersion := notice.taskVersion }

/-- One notice: its current row stays, or a new row replaces it. -/
def observeNotice (previous : List NoticeRow) (destination : TelegramDestination) (now : Nat)
    (o : Observing) (notice : TelegramNotice) : Except String Observing := do
  let old := previous.find? (·.sourceId = notice.key)
  let existing ← o.tx.loadOld old
  -- a change of configuration or token does not create another copy
  match existing.filter fun row => old.any (·.active) && notice.matches row with
  | some row => return { o with pending := o.pending ++ [row] }
  | none =>
    let tx ← o.tx.giveUp existing
    match o.fresh with
    | [] => throw "no session id"
    | id :: fresh =>
      let row := notice.row destination now id
      if row.Valid then
        let tx ← tx.insert row
        return ⟨{ tx with notices := tx.notices.put ⟨notice.key, id, true⟩ },
          o.pending ++ [row], fresh⟩
      else throw invalidDelivery

/-- A notice that is no longer observed. -/
def closeNotice (keys : List String) (tx : Store) (old : NoticeRow) : Except String Store :=
  if old.active && !keys.contains old.sourceId then do
    let existing ← tx.loadOld (some old)
    let tx ← tx.giveUp existing
    return tx.deactivate old.sourceId
  else return tx

namespace Store

variable (s : Store)

/-- The ids that `fresh` lists are allocated in order, one for each new row. -/
def observeTelegram (notices : List TelegramNotice) (destination : TelegramDestination) (now : Nat)
    (fresh : List String) : Except String (Store × List TelegramDelivery) :=
  let keys := notices.map (·.key)
  if notices.any (·.key = "") || ¬ keys.Nodup then throw invalidDelivery
  else do
    let previous := s.notices.rows
    let o ← notices.foldlM (observeNotice previous destination now) ⟨s, [], fresh⟩
    let tx ← previous.foldlM (closeNotice keys) o.tx
    return (tx, o.pending)

def enqueueTelegram (incoming : TelegramDelivery) : Except String (Store × TelegramDelivery) :=
  if incoming.Valid ∧ incoming.nextPart = 0 ∧ incoming.inFlight = false ∧
      incoming.abandoned = false then do
    match ← s.load incoming.id with
    | some old =>
      if old.destination = incoming.destination ∧ old.notification = incoming.notification ∧
          old.parts = incoming.parts ∧ old.attention = incoming.attention ∧
          old.taskVersion = incoming.taskVersion then return (s, old)
      else throw invalidDelivery
    | none =>
      let s ← s.insert incoming
      return (s, incoming)
  else throw invalidDelivery

def claimTelegramPart (id : String) (part : Nat) : Except String (Store × Bool) := do
  match ← s.load id with
  | none => return (s, false)
  | some row =>
    if row.nextPart ≠ part || row.inFlight || row.complete || row.abandoned then return (s, false)
    else
      let s ← s.save { row with inFlight := true }
      return (s, true)

def markTelegramUnknown (id : String) : Except String Store := do
  match ← s.load id with
  | none => return s
  | some row => if row.inFlight then s.save { row with outcomeUnknown := true } else return s

def confirmTelegramPart (id : String) (part : Nat) (messageId : Int) :
    Except String (Store × Bool) := do
  match ← s.load id with
  | none => return (s, false)
  | some row =>
    if row.nextPart ≠ part || !row.inFlight || row.abandoned || messageId ≤ 0 ||
        row.messageIds.contains messageId then return (s, false)
    else
      let s ← s.save { row with
        nextPart := row.nextPart + 1
        inFlight := false
        outcomeUnknown := false
        messageIds := row.messageIds ++ [messageId] }
      return (s, true)

/-- At boot, before any worker starts. -/
def recoverTelegramAttempts : Store :=
  { s with
    outbox := s.outbox.update
      (fun row => if row.inFlight then { row with outcomeUnknown := true } else row)
      (fun row => by split_ifs <;> rfl) }

def abandonUnknownTelegram (id reason : String) : Except String (Store × Bool) :=
  if isBlank reason || 4096 < reason.utf8ByteSize then throw invalidDelivery
  else do
    match ← s.load id with
    | none => return (s, false)
    | some row =>
      if !row.outcomeUnknown || row.abandonedByOperator.isSome then return (s, false)
      else
        let s ← s.save { row with abandoned := true, abandonedByOperator := some reason }
        return (s, true)

end Store

/-- The calls that change the outbox, each one transaction. -/
inductive Operation where
  | observe (notices : List TelegramNotice) (destination : TelegramDestination) (now : Nat)
      (fresh : List String)
  | enqueue (delivery : TelegramDelivery)
  | claim (id : String) (part : Nat)
  | markUnknown (id : String)
  | confirm (id : String) (part : Nat) (messageId : Int)
  | recover
  | abandonUnknown (id reason : String)
  deriving DecidableEq

inductive Reply where
  | deliveries (rows : List TelegramDelivery)
  | delivery (row : TelegramDelivery)
  | unit
  | bool (answer : Bool)
  deriving DecidableEq

namespace Store

def exec (s : Store) : Operation → Except String (Store × Reply)
  | .observe notices destination now fresh =>
    (s.observeTelegram notices destination now fresh).map fun (s, rows) => (s, .deliveries rows)
  | .enqueue delivery => (s.enqueueTelegram delivery).map fun (s, row) => (s, .delivery row)
  | .claim id part => (s.claimTelegramPart id part).map fun (s, b) => (s, .bool b)
  | .markUnknown id => (s.markTelegramUnknown id).map fun s => (s, .unit)
  | .confirm id part messageId =>
    (s.confirmTelegramPart id part messageId).map fun (s, b) => (s, .bool b)
  | .recover => .ok (s.recoverTelegramAttempts, .unit)
  | .abandonUnknown id reason => (s.abandonUnknownTelegram id reason).map fun (s, b) => (s, .bool b)

/-- A call that fails leaves the tables as they were. -/
def call (s : Store) (op : Operation) : Store × Except String Reply :=
  match s.exec op with
  | .ok (s', reply) => (s', .ok reply)
  | .error text => (s, .error text)

end Store

/-- Ids are allocated freshly: distinct from each other and from every stored one. -/
def Operation.Fresh (s : Store) : Operation → Prop
  | .observe _ _ _ fresh => fresh.Nodup ∧ ∀ id ∈ fresh, s.outbox.get id = none
  | _ => True

instance {s : Store} : (op : Operation) → Decidable (op.Fresh s)
  | .observe _ _ _ _ => inferInstanceAs (Decidable (_ ∧ _))
  | .enqueue _ | .claim _ _ | .markUnknown _ | .confirm _ _ _ | .recover | .abandonUnknown _ _ =>
    inferInstanceAs (Decidable True)

/-- Any calls in any order, from empty tables. -/
def outbox : Machine Store Operation (Except String Reply) where
  init s := s = Store.empty
  step s op s' out := op.Fresh s ∧ s.call op = (s', out)

/-- A call with fresh ids. -/
def Store.next (s : Store) (op : Operation) : Option (Store × Except String Reply) :=
  if op.Fresh s then some (s.call op) else none

theorem step_of_next {s s' : Store} {op : Operation} {out : Except String Reply}
    (h : s.next op = some (s', out)) : outbox.step s op s' out := by
  unfold Store.next at h
  split_ifs at h with hfresh
  exact ⟨hfresh, Option.some.inj h⟩

end Agend.Telegram
