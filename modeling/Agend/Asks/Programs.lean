import Agend.Asks.Store

/-! The part of the engine that keeps asks: what it calls, and what it does for each request. -/
namespace Agend.Asks

open Agend.Library Agend.Client Agend.Runtime Program
open Engine (Refusal invalid forbidden)

def unknownAsk (message : String) : Refusal := ⟨"unknown_ask", message⟩

def unknownInstance (caller : String) : Refusal :=
  ⟨"unknown_instance", s!"unknown instance {caller}"⟩

structure Member where
  id : String
  delivery : String
  deriving DecidableEq

structure Receipt where
  backendMessageId : Option String
  state : DeliveryState
  deriving DecidableEq

inductive CommandResult where
  | accepted
  | askCreated (askId : String)
  deriving DecidableEq

inductive Call where
  | instance_ (id : String)
  | heldTask (id : String)
  | newId
  | asks
  | saveAsk (row : AskRow)
  | pendingAnswers
  | markAnswerSent (seq : Nat)
  | members
  | claimMessage (new : NewMessage)
  | advanceMessage (id : String) (next : DeliveryState) (turn : Option String)
  -- A driver.
  | deliver (recipient : String) (new : NewMessage)
  -- Whether the item that a notification shows is still the current one.
  | current
  | publish (thread : AskThread)
  | send (result : Except Refusal CommandResult)
  -- What the engine does besides asks.
  | otherwise

def Call.Reply : Call → Type
  | .instance_ _ => Bool
  | .heldTask _ => Option String
  | .newId => String
  | .asks => List AskRow
  | .pendingAnswers => List Pending
  | .members => List Member
  | .claimMessage _ => Claim
  | .deliver _ _ => Receipt
  | .current => Bool
  | _ => Unit

/-- What always returns. -/
def Call.certain : Call → Bool
  | .current | .publish _ | .send _ => true
  | _ => false

/-- What the environment decides about a call: what the rest of the daemon did to the messages
before it, whether it fails, and what comes from elsewhere. -/
structure Answer where
  moves : List Move := []
  fault : Option String := none
  yes : Bool := true
  text : String := ""
  task : Option String := none
  members : List Member := []
  receipt : Receipt := ⟨none, .sent⟩
  /-- The message has a record of the Claude driver. -/
  claude : Bool := false

/-- A receipt of the Claude driver that is not behind the stored state. -/
def recorded (next state : DeliveryState) : Bool :=
  next = state || match next, state with
    | .queued, .sent | .queued, .confirmed | .queued, .failed => true
    | .sent, .confirmed | .sent, .failed => true
    | _, _ => false

namespace World

variable (encode : AskEntry → String) (a : Answer) (w : World)

def advanceMessage (id : String) (next : DeliveryState) (turn : Option String) :
    Except Refusal Unit × World :=
  if a.claude then
    match w.messages.get id with
    | none => (.error (invalid "missing Claude dispatch"), w)
    | some m =>
      if turn.isSome || !recorded next m.state then
        (.error (invalid "Claude dispatch receipt is not recorded by its Driver/helper"), w)
      else (.ok (), w)
  else (.ok (), w.advance id next)

def perform : (c : Call) → Except Refusal c.Reply × World
  | .instance_ _ => (.ok a.yes, w)
  | .heldTask _ => (.ok a.task, w)
  | .newId => (.ok a.text, w)
  | .asks => (.ok w.rows, w)
  | .saveAsk row => (.ok (), w.saveAsk row)
  | .pendingAnswers => (.ok (w.pendingAnswers encode), w)
  | .markAnswerSent seq => (.ok (), w.markAnswerSent seq)
  | .members => (.ok a.members, w)
  | .claimMessage new =>
    let r := w.claim new
    (.ok r.1, r.2)
  | .advanceMessage id next turn => w.advanceMessage a id next turn
  | .deliver _ _ => (.ok a.receipt, w)
  | .current => (.ok a.yes, w)
  | .publish _ => (.ok (), w)
  | .send _ => (.ok (), w)
  | .otherwise => (.ok (), w)

def exec (c : Call) : Except Refusal c.Reply × World :=
  let w := w.outside a.moves
  match a.fault with
  | some reason => if c.certain then w.perform encode a c else (.error (invalid reason), w)
  | none => w.perform encode a c

end World

def interface (encode : AskEntry → String) : Interface World Refusal where
  Call := Call
  Reply := Call.Reply
  Answer := Answer
  exec c a w := w.exec encode a c

section

variable (encode : AskEntry → String)

abbrev Routine (α : Type) := Program (interface encode) α

def call (c : Call) : Routine encode c.Reply := Program.ask (I := interface encode) c

def deliver (recipient id : String) (task : Option String) (body : String) :
    Routine encode Unit := do
  let members : List Member ← call encode .members
  let member ← orRaise (members.find? (·.id = recipient)) (invalid "unknown instance")
  let new : NewMessage := ⟨id, "daemon", recipient, task, body, .queue⟩
  let claim : Claim ← call encode (.claimMessage new)
  if claim = .different then raise (invalid "message id already has different content")
  else if claim = .existing .sent || claim = .existing .confirmed then pure ()
  else do
    let receipt : Receipt ←
      if member.delivery = "inbox" then pure ⟨none, .sent⟩
      else call encode (.deliver recipient new)
    call encode (.advanceMessage id receipt.state receipt.backendMessageId)

def deliverAnswers : Routine encode Unit := do
  let pending : List Pending ← call encode .pendingAnswers
  forEach (fun p => do
    deliver encode p.instanceId p.id p.task p.body
    call encode (.markAnswerSent p.seq)) pending

def ownedAsk (caller id : String) : Routine encode AskRow := do
  let rows : List AskRow ← call encode .asks
  let row ← orRaise (rows.find? fun r => r.thread.askId = id && !r.thread.isResolved)
    (unknownAsk "no open ask")
  check (row.instanceId = caller) (forbidden "only the asking agent can continue this ask")
  pure row

def AskRow.push (row : AskRow) (e : AskEntry) : AskRow :=
  { row with thread := { row.thread with entries := row.thread.entries ++ [e] } }

inductive AgentCommand where
  | ask (question : String) (options : List String)
  | askFollowUp (askId question : String) (options : List String)
  | askResolve (askId summary : String)

def agent (caller : Option String) (now : Nat) (command : AgentCommand) :
    Routine encode CommandResult := do
  let caller ← orRaise caller (forbidden "this command requires an agent")
  let known : Bool ← call encode (.instance_ caller)
  check known (unknownInstance caller)
  match command with
  | .ask question options =>
    check (!Pipeline.isBlank question) (invalid "ask question is empty")
    let task : Option String ← call encode (.heldTask caller)
    let id : String ← call encode .newId
    let askId := "A-" ++ id
    let thread : AskThread := ⟨askId, task, [.question caller question options]⟩
    call encode (.saveAsk ⟨caller, now, thread⟩)
    pure (.askCreated askId)
  | .askFollowUp askId question options =>
    let row ← ownedAsk encode caller askId
    check (!Pipeline.isBlank question && row.thread.entries.getLast?.any (·.isAnswer))
      (invalid "follow-up requires an answer and a nonempty question")
    let row := row.push (.followUp caller question options)
    call encode (.saveAsk row)
    call encode (.publish row.thread)
    pure .accepted
  | .askResolve askId summary =>
    let row ← ownedAsk encode caller askId
    check (!Pipeline.isBlank summary) (invalid "resolution requires a summary")
    let row := row.push (.resolution caller summary)
    call encode (.saveAsk row)
    call encode (.publish row.thread)
    pure .accepted

structure AnswerAskData where
  requestId : String
  askId : String
  source : AnswerSource
  reply : AskReply

def answer (data : AnswerAskData) : Routine encode CommandResult := do
  let rows : List AskRow ← call encode .asks
  let row ← orRaise (rows.find? (·.thread.askId = data.askId)) (unknownAsk "unknown ask")
  check (row.thread.accepts data.reply)
    (unknownAsk "ask has no pending question accepting this answer")
  let row := row.push (.answer "operator" data.source data.reply)
  call encode (.saveAsk row)
  deliverAnswers encode
  call encode (.publish row.thread)
  pure .accepted

/-- An answer to a notification, which shows the ask `expected`. -/
def guarded (expected : Option String) (data : AnswerAskData) : Routine encode CommandResult := do
  let current : Bool ← call encode .current
  check current (invalid "notification is stale; open the current needs-you item")
  check (expected = some data.askId) (invalid "request does not match notification")
  answer encode data

inductive Request where
  | agent (caller : Option String) (now : Nat) (command : AgentCommand)
  | answer (data : AnswerAskData)
  | guarded (expected : Option String) (data : AnswerAskData)
  | other

/-- The result is sent, whatever it is. -/
def reply (p : Routine encode CommandResult) : Routine encode Unit := do
  let result ← attempt p
  call encode (.send result)

def respond : Request → Routine encode Unit
  | .agent caller now command => reply encode (agent encode caller now command)
  | .answer data => reply encode (answer encode data)
  | .guarded expected data => reply encode (guarded encode expected data)
  | .other => pure ()

/-- After each request the engine looks after its tasks and its view. -/
def serve (request : Request) : Routine encode Unit := do
  respond encode request
  let _ ← attempt (call encode .otherwise)
  pure ()

def boot : Routine encode Unit := do
  call encode .otherwise
  deliverAnswers encode
  call encode .otherwise

def server : Server (interface encode) where
  Request := Request
  start := boot encode
  serve := serve encode

end

end Agend.Asks
