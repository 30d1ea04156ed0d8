import Agend.Runtime.Switch

/-! The link of a codex agent: a flush sends the queued messages one after the other. -/
namespace Agend.Runtime.Store

variable (s : Store)

/-- The messages to an agent, `ORDER BY seq`. -/
def messagesTo (id : String) : List Message :=
  s.messages.rows.filter (·.toInstance = id)

/-- A write reservation: a previously attempted row also waits for a prepared switch. -/
def beginCodexAttempt (id : String) (now : Nat) : Except String (Store × Bool) :=
  match s.messages.get id with
  | none => .ok (s, false)
  | some row =>
    if row.state ≠ .queued then .ok (s, false)
    else do
      let paused ← s.deliveryPaused row.toInstance
      if paused then return (s, false)
      else do
        let s ← s.markAttempted id now
        return (s, true)

end Agend.Runtime.Store

namespace Agend.Codex

open Library
open Agend.Runtime

/-- What the app-server is asked to take a message, or to make room for one. -/
inductive Call where
  | turnStart
  | queueAdd
  | queueStart
  | turnSteer (turn : String)
  | turnInterrupt (turn : String)
  deriving DecidableEq

/-- The calls with a `clientUserMessageId`. -/
def Call.submits : Call → Bool
  | .turnStart | .queueAdd | .turnSteer _ => true
  | .queueStart | .turnInterrupt _ => false

inductive Answer where
  | ok (turn : Option String)
  | refused (invalidRequest : Bool)
  | broken
  deriving DecidableEq

/-- What a send does after an answer. -/
inductive Sending where
  | call (c : Call)
  | done (turn : Option String)
  | failed
  | broken
  deriving DecidableEq

/-- The method that the level and the driver's own view of the thread pick. -/
def firstCall (busy : Bool) (active : Option String) (level : BusyLevel) : Call :=
  if busy then
    match active, level with
    | _, .queue => .queueAdd
    | some turn, .steer => .turnSteer turn
    | some turn, .interrupt => .turnInterrupt turn
    | none, _ => .turnStart
  else .turnStart

/-- After `turn/interrupt` the wait for the end of the turn only reads. -/
def afterAnswer (busy : Bool) : Call → Answer → Sending
  | _, .broken => .broken
  | .turnStart, .ok turn => .done turn
  | .queueAdd, .ok _ => if busy then .done none else .call .queueStart
  | .queueStart, _ => .done none
  | .turnSteer turn, .ok turn' => .done (turn'.or (some turn))
  | .turnSteer _, .refused true => .call .turnStart
  | .turnInterrupt _, .ok _ => .call .turnStart
  | .turnInterrupt _, .refused true => .call .turnStart
  | _, .refused _ => .failed

/-- How far the send of one message is. -/
inductive Stage where
  | issue (c : Call)
  | await (c : Call)
  | sent (turn : Option String)
  | failed
  deriving DecidableEq

/-- The rows of a snapshot that a flush has not looked at, and its `waiting`. -/
structure Flush where
  waiting : Bool
  rows : List Message
  deriving DecidableEq

inductive Task where
  | gone
  | catchingUp
  | draining
  | pumping
  | reconciling
  | flushing (f : Flush)
  | sending (f : Flush) (row : Message) (stage : Stage)
  deriving DecidableEq

/-- One agent's link, with the store and the ids that were written to the app-server. -/
structure Link where
  id : String
  store : Store
  busy : Bool
  active : Option String
  recheck : Bool
  task : Task
  submitted : List String

namespace Link

variable (l : Link)

def queued : List Message :=
  (l.store.messagesTo l.id).filter (·.state = .queued)

/-- The start of a flush: a message that was sent before is looked for first. -/
def flush : Link :=
  { l with task :=
      if l.queued.any (·.attemptedAtUnixMs.isSome) then .reconciling
      else .flushing ⟨false, l.queued⟩ }

/-- The loop of a flush, up to the send of one row. -/
def row (f : Flush) (now : Nat) : Link :=
  match f.rows with
  | [] => { l with task := .pumping }
  | row :: rows =>
    if f.waiting = true ∧ row.level = .queue then { l with task := .flushing ⟨f.waiting, rows⟩ }
    else if row.attemptedAtUnixMs.isSome ∧ l.busy = true then
      { l with
        recheck := true
        task := .flushing ⟨true, rows⟩ }
    else
      match l.store.beginCodexAttempt row.id now with
      | .error _ => { l with task := .gone }
      | .ok (store, false) => { l with store := store, task := .flushing ⟨f.waiting, rows⟩ }
      | .ok (store, true) =>
        { l with
          store := store
          task := .sending ⟨f.waiting, rows⟩ row (.issue (firstCall l.busy l.active row.level)) }

/-- A request is written, or the connection turns out to be broken. -/
def issue (f : Flush) (row : Message) (c : Call) (written : Bool) : Link :=
  if written then
    { l with
      submitted := if c.submits then row.id :: l.submitted else l.submitted
      task := .sending f row (.await c) }
  else { l with task := .gone }

/-- A turn that was started runs from its answer on. -/
def started (c : Call) (a : Answer) : Link :=
  match c, a with
  | .turnStart, .ok (some turn) => { l with active := some turn, busy := true }
  | _, _ => l

def answer (f : Flush) (row : Message) (c : Call) (a : Answer) : Link :=
  let l := l.started c a
  match afterAnswer l.busy c a with
  | .call c => { l with task := .sending f row (.issue c) }
  | .done turn => { l with task := .sending f row (.sent turn) }
  | .failed => { l with task := .sending f row .failed }
  | .broken => { l with task := .gone }

def settle (f : Flush) (row : Message) (state : DeliveryState) (turn : Option String)
    (now : Nat) : Link :=
  match l.store.advance row.id state turn now with
  | .error _ => { l with task := .gone }
  | .ok (store, _) => { l with store := store, task := .flushing f }

end Link

/-- What happens next: a transaction of anyone, a notification, or a step of the link. The receipts
that a reconciliation finds are transactions of the first kind. -/
inductive Event where
  | store (op : Operation)
  | notify (busy : Bool) (active : Option String)
  | connect
  | reconciled
  | drained
  | flush
  | recheck
  | row (now : Nat)
  | issue (written : Bool)
  | answer (a : Answer)
  | settle (now : Nat)
  | lose
  | crash
  deriving DecidableEq

namespace Link

variable (l : Link)

/-- The step of the link in its task; none where the event cannot happen. -/
def work : Task → Event → Option Link
  | .gone, .connect => some { l with task := .catchingUp }
  | .catchingUp, .reconciled => some { l with task := .draining }
  | .draining, .drained => some l.flush
  | .pumping, .flush => some l.flush
  | .pumping, .recheck =>
    if l.recheck = true ∧ l.busy = false then some ({ l with recheck := false } : Link).flush
    else none
  | .reconciling, .reconciled => some { l with task := .flushing ⟨false, l.queued⟩ }
  | .flushing f, .row now => some (l.row f now)
  | .sending f row (.issue c), .issue written => some (l.issue f row c written)
  | .sending f row (.await c), .answer a => some (l.answer f row c a)
  | .sending f row (.sent turn), .settle now => some (l.settle f row .sent turn now)
  | .sending f row .failed, .settle now => some (l.settle f row .failed none now)
  | _, _ => none

def step : Event → Option Link
  | .store op => some { l with store := (l.store.call op).1 }
  | .notify busy active => some { l with busy := busy, active := active }
  | .lose => some { l with task := .gone }
  | .crash => some { l with busy := false, active := none, recheck := false, task := .gone }
  | e => l.work l.task e

/-- The message that a step writes to the app-server. -/
def sends (e : Event) : Option String :=
  match l.task, e with
  | .sending _ row (.issue c), .issue true => if c.submits then some row.id else none
  | _, _ => none

def next (e : Event) : Option (Link × Option String) :=
  (l.step e).map fun l' => (l', l.sends e)

end Link

/-- A link from its first connection on, with any calls of others between its own. -/
def link (id : String) : Machine Link Event (Option String) where
  init l := l = ⟨id, .empty, false, none, false, .gone, []⟩
  step l e l' o := l.next e = some (l', o)

end Agend.Codex
