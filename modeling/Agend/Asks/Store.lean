import Agend.Asks.Thread
import Agend.Engine.Tickets

/-! The rows of asks, of their turns, and of the messages that take answers to agents. -/
namespace Agend.Asks

open Agend.Library Agend.Client Agend.Runtime

/-- What the engine reads and saves of an ask. -/
structure AskRow where
  instanceId : String
  created : Nat
  thread : AskThread
  deriving DecidableEq

/-- A stored ask: who asked and about which task is written once. -/
structure Ask where
  id : String
  instanceId : String
  taskId : Option String
  thread : AskThread
  created : Nat
  deriving DecidableEq

structure Turn where
  seq : Nat
  askId : String
  entry : AskEntry
  delivered : Bool
  deriving DecidableEq

def Turn.isPending (t : Turn) : Bool := !t.delivered && t.entry.isAnswer

structure Posted where
  new : NewMessage
  state : DeliveryState
  deriving DecidableEq

def Posted.id (m : Posted) : String := m.new.id

/-- An answer on its way to the agent that asked. -/
structure Pending where
  seq : Nat
  id : String
  instanceId : String
  task : Option String
  body : String
  deriving DecidableEq

def Pending.message (p : Pending) : NewMessage :=
  ⟨p.id, "daemon", p.instanceId, p.task, p.body, .queue⟩

/-- What a claim of a message id found. -/
inductive Claim where
  | inserted
  | existing (state : DeliveryState)
  | different
  deriving DecidableEq

structure World where
  asks : Table Ask.id
  turns : List Turn
  nextSeq : Nat
  messages : Table Posted.id

/-- A change that the rest of the daemon makes to the messages. -/
inductive Move where
  | post (m : Posted)
  | advance (id : String) (next : DeliveryState)
  | prune (id : String)
  deriving DecidableEq

def answerId (askId : String) (k : Nat) : String := "ask:" ++ askId ++ "/" ++ toString k

/-- The ids that answers have. -/
def isAnswerId (id : String) : Bool := "ask:".toList.isPrefixOf id.toList

namespace World

variable (encode : AskEntry → String) (w : World)

def empty : World := ⟨.empty, [], 1, .empty⟩

def rows : List AskRow := w.asks.values.map fun q => ⟨q.instanceId, q.created, q.thread⟩

/-- The entries of a stored thread. -/
def entriesOf (askId : String) : List AskEntry :=
  ((w.asks.get askId).map (·.thread.entries)).getD []

def turnsOf (askId : String) : List AskEntry :=
  (w.turns.filter (·.askId = askId)).map (·.entry)

/-- The new turns of a thread are stored under the next numbers. -/
def saveAsk (row : AskRow) : World :=
  let id := row.thread.askId
  let saved := match w.asks.get id with
    | some old => { old with thread := row.thread }
    | none => ⟨id, row.instanceId, row.thread.taskId, row.thread, row.created⟩
  let count := (w.turns.filter (·.askId = id)).length
  let fresh := row.thread.entries.drop count
  { w with
    asks := w.asks.put saved,
    turns := w.turns ++ (fresh.zipIdx w.nextSeq).map fun (e, seq) => ⟨seq, id, e, false⟩,
    nextSeq := w.nextSeq + fresh.length }

/-- The place of a turn in its thread, counted from one. -/
def position (t : Turn) : Nat :=
  w.turns.countP fun u => u.askId = t.askId && decide (u.seq ≤ t.seq)

def outgoing (t : Turn) : Option Pending :=
  (w.asks.get t.askId).map fun q =>
    ⟨t.seq, answerId t.askId (w.position t), q.instanceId, q.taskId, encode t.entry⟩

def pendingAnswers : List Pending := (w.turns.filter (·.isPending)).filterMap (w.outgoing encode)

def markAnswerSent (seq : Nat) : World :=
  { w with turns := w.turns.map fun t => if t.seq = seq then { t with delivered := true } else t }

def claim (new : NewMessage) : Claim × World :=
  match w.messages.get new.id with
  | some old => (if old.new = new then .existing old.state else .different, w)
  | none => (.inserted, { w with messages := w.messages.put ⟨new, .queued⟩ })

/-- Moves a message on when its state allows it. -/
def advance (id : String) (next : DeliveryState) : World :=
  match w.messages.get id with
  | some m =>
    if m.state.canTransitionTo next then { w with messages := w.messages.put { m with state := next } }
    else w
  | none => w

def move : Move → World
  | .post m =>
    match w.messages.get m.id with
    | some _ => w
    | none => { w with messages := w.messages.put m }
  | .advance id next => w.advance id next
  | .prune id => { w with messages := w.messages.erase id }

def outside (moves : List Move) : World := moves.foldl move w

end World

end Agend.Asks
