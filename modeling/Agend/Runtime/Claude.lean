import Mathlib.Algebra.Group.Nat.Defs
import Agend.Library.Except
import Agend.Runtime.Records

/-! Attempts to push a message to an agent: each call reads both tables and changes them at once. -/
namespace Agend.Runtime

open Library
open Pipeline (isBlank)

/-- The tables that the calls below read. -/
structure Store where
  instances : Table Instance.id
  messages : Table Message.id
  deliveries : Table ClaudeDelivery.messageId
  events : Table DriverEvent.id
  launches : Table ManagedLaunchIntent.instanceId
  switches : Table BackendSwitch.instanceId

def Store.empty : Store :=
  ⟨.empty, .empty, .empty, .empty, .empty, .empty⟩

/-- The content of a JSON string. -/
def jsonEscape (text : String) : String :=
  let hex (n : Nat) : Char := if n < 10 then Char.ofNat (48 + n) else Char.ofNat (87 + n)
  String.ofList (text.toList.flatMap fun c =>
    if c = '"' then ['\\', '"']
    else if c = '\\' then ['\\', '\\']
    else if c.toNat = 8 then ['\\', 'b']
    else if c.toNat = 9 then ['\\', 't']
    else if c.toNat = 10 then ['\\', 'n']
    else if c.toNat = 12 then ['\\', 'f']
    else if c.toNat = 13 then ['\\', 'r']
    else if c.toNat < 32 then ['\\', 'u', '0', '0', hex (c.toNat / 16), hex (c.toNat % 16)]
    else [c])

def ClaudeAck.payload (ack : ClaudeAck) : String :=
  "\x7b\"delivery_id\":\"" ++ jsonEscape ack.deliveryId ++ "\",\"message_id\":\"" ++
    jsonEscape ack.messageId ++ "\",\"session_id\":\"" ++ jsonEscape ack.sessionId ++ "\"\x7d"

def claudeError (what : String) : String :=
  "Claude delivery: " ++ what

def eventError (what : String) : String :=
  "driver event: " ++ what

/-- A time that the tables can hold. -/
def ms (value : Nat) : Except String Nat :=
  if value < 2 ^ 63 then .ok value else .error (claudeError "time out of range")

inductive Claim where
  | inserted (m : Message)
  | existing (m : Message)
  | different (m : Message)
  deriving DecidableEq

namespace Store

variable (s : Store)

/-- A row of `messages` and, by the trigger, its row of `claude_deliveries`. -/
def insertMessage (m : Message) : Store :=
  let s := { s with messages := s.messages.put m }
  match s.instances.get m.toInstance with
  | some target =>
    if target.backend = .claude ∧ target.delivery = "push" then
      { s with deliveries := s.deliveries.put ⟨m.id, m.toInstance, none, none, none⟩ }
    else s
  | none => s

def claimMessage (new : NewMessage) (now : Nat) : Except String (Store × Claim) :=
  match s.messages.get new.id with
  | some found => .ok (s, if found.sameAs new then .existing found else .different found)
  | none => do
    let now ← ms now
    let m : Message := ⟨new.id, new.fromInstance, new.toInstance, new.taskId, new.body, new.level,
      .queued, none, now, now, none⟩
    return (s.insertMessage m, .inserted m)

/-- Shared forward transitions of a message. -/
def advanceClaude (id : String) (next : DeliveryState) (turnId : Option String) (now : Nat) :
    Except String (Store × Option Message) :=
  match s.messages.get id with
  | none => .ok (s, none)
  | some current =>
    if current.state.canTransitionTo next then do
      let now ← ms now
      let m := { current with
        state := next
        turnId := turnId.or current.turnId
        updatedAtUnixMs := now }
      return ({ s with messages := s.messages.put m }, some m)
    else .ok (s, none)

def advance (id : String) (next : DeliveryState) (turnId : Option String) (now : Nat) :
    Except String (Store × Option Message) := do
  require (s.deliveries.get id = none)
    "Claude push requires an explicit delivery or ACK transaction"
  s.advanceClaude id next turnId now

def markAttempted (id : String) (now : Nat) : Except String Store := do
  let now ← ms now
  match s.messages.get id with
  | none => return s
  | some m =>
    if m.state = .queued then
      return { s with
        messages := s.messages.put
          { m with attemptedAtUnixMs := some (m.attemptedAtUnixMs.getD now) } }
    else return s

def requiredDelivery (id : String) : Except String ClaudeDelivery :=
  okOr (s.deliveries.get id) (claudeError "not a retained Claude push message")

def requiredMessage (id : String) : Except String Message :=
  okOr (s.messages.get id) (claudeError "missing message")

/-- `read` of the backend switch of an agent. -/
def readSwitch (instanceId : String) : Except String (Option BackendSwitch) :=
  match s.switches.get instanceId with
  | none => .ok none
  | some record =>
    if record.previous.instanceId = instanceId ∧ isUuidV4 record.id then .ok (some record)
    else .error "backend switch identity is inconsistent"

/-- New content is held until activation is verified. -/
def deliveryPaused (instanceId : String) : Except String Bool :=
  (s.readSwitch instanceId).map fun record => record.any (·.phase.pending)

/-- `delivery_id` is unique. -/
def putAttempt (d : ClaudeDelivery) (attempt : ClaudeAttempt) : Except String Store := do
  require (∀ other ∈ s.deliveries.rows, other.messageId ≠ d.messageId →
      other.attempt.map (·.deliveryId) ≠ some attempt.deliveryId)
    "UNIQUE constraint failed: claude_deliveries.delivery_id"
  return { s with deliveries := s.deliveries.put { d with attempt := some attempt } }

end Store

def attemptMatches (d : ClaudeDelivery) (new : NewClaudeDelivery) : Bool :=
  d.instanceId = new.instanceId && d.attempt.any fun a =>
    a.deliveryId = new.deliveryId && a.sessionId = new.sessionId && a.route = new.route

/-- Whether the agent runs Claude push in the session. -/
def Instance.pushes (i : Instance) (session : String) : Prop :=
  i.backend = .claude ∧ i.delivery = "push" ∧ i.status = .running ∧ i.sessionStarted = true ∧
    i.sessionId = some session

instance {i : Instance} {session : String} : Decidable (i.pushes session) :=
  inferInstanceAs (Decidable (_ ∧ _))

namespace Store

variable (s : Store)

/-- The first attempt of a message: saved before any content is written. -/
def start (stored : ClaudeDelivery) (new : NewClaudeDelivery) (now : Nat) :
    Except String (Store × ClaudeReservation) := do
  let message ← s.requiredMessage new.messageId
  require (stored.mayStart message = true ∧ stored.instanceId = new.instanceId)
    (claudeError "message is closed or a previous outcome is unknown")
  let target ← okOr (s.instances.get new.instanceId) (claudeError "missing instance")
  require (target.pushes new.sessionId)
    (claudeError "instance is not running Claude push in this session")
  let paused ← s.deliveryPaused new.instanceId
  if paused then return (s, .paused)
  else do
    let started ← ms now
    let s ← s.putAttempt stored ⟨new.deliveryId, new.sessionId, new.route, started, none, none⟩
    let s ← s.markAttempted new.messageId now
    let result ← s.requiredDelivery new.messageId
    return (s, .started result)

def reserve (new : NewClaudeDelivery) (now : Nat) : Except String (Store × ClaudeReservation) := do
  require (isUuidV4 new.deliveryId = true ∧ isUuidV4 new.sessionId = true)
    (claudeError "delivery and session ids must be UUID v4")
  let stored ← s.requiredDelivery new.messageId
  match stored.attempt with
  | some _ => do
    require (attemptMatches stored new = true)
      (claudeError "message already has a different attempt")
    return (s, .existing stored)
  | none => s.start stored new now

/-- A queued message was sent. -/
def markSent (m : Message) (now : Nat) : Except String Store :=
  if m.state = .queued then (s.advanceClaude m.id .sent none now).map (·.1) else .ok s

def written (id delivery : String) (now : Nat) : Except String (Store × ClaudeDelivery) := do
  let stored ← s.requiredDelivery id
  let attempt ← okOr stored.attempt (claudeError "attempt not started")
  require (attempt.deliveryId = delivery ∧ stored.abandonedAtUnixMs = none)
    (claudeError "wrong delivery id or abandoned message")
  let message ← s.requiredMessage id
  require (message.state ≠ .failed) (claudeError "message failed")
  require (message.state = .confirmed → attempt.confirmedAtUnixMs ≠ none)
    (claudeError "confirmed message lacks ACK attribution")
  let s ← s.markSent message now
  let now ← ms now
  let sent : ClaudeDelivery := { stored with
    attempt := some { attempt with sentAtUnixMs := some (attempt.sentAtUnixMs.getD now) } }
  return ({ s with deliveries := s.deliveries.put sent }, sent)

/-- `append` of an acknowledgement: the kind and the JSON object are fixed here. -/
def appendEvent (event : DriverEvent) (now : Nat) : Except String Store := do
  require (isUuidV4 event.id = true ∧ isUuidV4 event.sessionId = true)
    (eventError "event and session ids must be UUID v4")
  require (validateId event.instanceId = true) (invalidId event.instanceId)
  require (event.payload.utf8ByteSize ≤ 1024 * 1024) (eventError "payload exceeds 1 MiB")
  let _ ← ms event.occurredAtUnixMs
  let _ ← ms now
  match s.events.get event.id with
  | some old => do
    require ({ event with replayed := old.replayed } = old)
      (eventError "event id already has different content")
    return s
  | none => return { s with events := s.events.put event }

/-- The acknowledgement of an attempt that has none yet. -/
def confirm (stored : ClaudeDelivery) (attempt : ClaudeAttempt) (message : Message)
    (ack : ClaudeAck) (eventId : String) (now : Nat) : Except String Store := do
  require (message.state ≠ .confirmed) (claudeError "confirmed message lacks ACK attribution")
  let s ← s.markSent message now
  let (s, _) ← s.advanceClaude ack.messageId .confirmed none now
  let at_ ← ms now
  let s := { s with
    deliveries := s.deliveries.put { stored with
      attempt := some { attempt with
        sentAtUnixMs := some (attempt.sentAtUnixMs.getD at_)
        confirmedAtUnixMs := some at_ } } }
  s.appendEvent ⟨eventId, ack.instanceId, ack.sessionId, "AgendAck", ack.payload, now, false⟩ now

def acknowledge (ack : ClaudeAck) (eventId : String) (now : Nat) :
    Except String (Store × ClaudeAckResult) := do
  let stored ← s.requiredDelivery ack.messageId
  let attempt ← okOr stored.attempt (claudeError "ACK has no started attempt")
  require (stored.instanceId = ack.instanceId ∧ attempt.deliveryId = ack.deliveryId ∧
      attempt.sessionId = ack.sessionId ∧ stored.abandonedAtUnixMs = none)
    (claudeError "ACK identity mismatch or abandoned message")
  let message ← s.requiredMessage ack.messageId
  require (message.state ≠ .failed) (claudeError "message failed")
  match attempt.confirmedAtUnixMs with
  | some _ => do
    require (message.state = .confirmed) (claudeError "inconsistent ACK state")
    return (s, .alreadyConfirmed)
  | none => (s.confirm stored attempt message ack eventId now).map fun s => (s, .confirmed)

/-- A message that was not confirmed fails. -/
def markFailed (m : Message) (now : Nat) : Except String Store :=
  if m.state = .failed then .ok s else (s.advanceClaude m.id .failed none now).map (·.1)

def abandon (id reason : String) (now : Nat) : Except String (Store × ClaudeDelivery) := do
  require (isBlank reason = false ∧ reason.utf8ByteSize ≤ 4096)
    (claudeError "invalid abandonment reason")
  let stored ← s.requiredDelivery id
  let message ← s.requiredMessage id
  require (message.state ≠ .confirmed) (claudeError "message already confirmed")
  match stored.abandonedAtUnixMs with
  | some _ => return (s, stored)
  | none => do
    let s ← s.markFailed message now
    let now ← ms now
    let abandoned : ClaudeDelivery := { stored with
      abandonedAtUnixMs := some now
      abandonmentReason := some reason }
    return ({ s with deliveries := s.deliveries.put abandoned }, abandoned)

/-- Rechecked here, so that a receipt that arrived is not turned into a failure. -/
def abandonUnknownClaude (id reason : String) (now : Nat) : Except String Store := do
  let stored ← s.requiredDelivery id
  let message ← s.requiredMessage id
  require (stored.outcomeUnknown message = true)
    (claudeError "delivery no longer has an unknown outcome; nothing changed")
  let (s, _) ← s.abandon id reason now
  return s

/-- Undoes only a reservation whose key was refused before anything was written. -/
def releaseRefusedClaudeKey (message delivery : String) : Except String Store := do
  let stored ← s.requiredDelivery message
  let m ← s.requiredMessage message
  require (stored.abandonedAtUnixMs = none ∧ m.state = .queued ∧
      stored.attempt.any (fun a => a.deliveryId = delivery && a.sentAtUnixMs.isNone &&
        a.confirmedAtUnixMs.isNone) = true)
    (claudeError "key reservation can no longer be released")
  return { s with
    deliveries := s.deliveries.put { stored with attempt := none }
    messages := s.messages.put { m with attemptedAtUnixMs := none } }

end Store

end Agend.Runtime
