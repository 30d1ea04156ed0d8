import Agend.Runtime.Programs

/-! Messages pushed to an OpenCode session: one attempt each, its receipt, and what retention
deletes. -/
namespace Agend.Runtime

open Library

structure OpenCodeAttempt where
  messageId : String
  sessionId : String
  backendMessageId : String
  deriving DecidableEq

/-- A completion that was seen in a session. -/
structure Observed where
  instanceId : String
  sessionId : String
  messageId : String
  deriving DecidableEq

/-- The kind of a driver event with its JSON object. -/
inductive OpenCodePayload where
  | confirmed (messageId : String)
  | abandoned (messageId reason : String)
  | usage
  | completed (summary : Option String)
  deriving DecidableEq

structure OpenCodeEvent where
  instanceId : String
  sessionId : String
  payload : OpenCodePayload
  ingestedAtUnixMs : Nat
  deriving DecidableEq

/-- The tables beside those of the agents; `log` holds the `driver_events` of this backend, newest
first. -/
structure OpenCode where
  base : Store
  attempts : Table OpenCodeAttempt.messageId
  observed : List Observed
  log : List OpenCodeEvent

def OpenCode.empty : OpenCode := ⟨.empty, .empty, [], []⟩

/-- Binds an attempt to its session and message. -/
def reference (session message : String) : String :=
  session ++ "|" ++ message

/-- The receipt is of this attempt. -/
def attemptIs (m : Message) (session backendId : String) : Bool :=
  m.attemptedAtUnixMs.isSome && m.turnId = some (reference session backendId)

/-- Whether the agent runs OpenCode push in the session. -/
def Instance.hosts (i : Instance) (session : String) : Prop :=
  i.backend = .opencode ∧ i.delivery = "push" ∧ i.sessionId = some session ∧ i.status = .running

instance {i : Instance} {session : String} : Decidable (i.hosts session) :=
  inferInstanceAs (Decidable (_ ∧ _))

def dayMs : Nat := 86400000

/-- Rows older than this many days go. -/
def cutoff (days now : Nat) : Nat := min (now - days * dayMs) (2 ^ 63 - 1)

namespace OpenCode

variable (s : OpenCode)

def event (instanceId session : String) (payload : OpenCodePayload) (now : Nat) :
    Except String OpenCode := do
  require (now < 2 ^ 63) "event time out of range"
  return { s with log := ⟨instanceId, session, payload, now⟩ :: s.log }

/-- `messages::advance`, where the message must move. -/
def advance (id : String) (next : DeliveryState) (turnId : Option String) (now : Nat)
    (error : String) : Except String (OpenCode × Message) := do
  let (base, moved) ← s.base.advance id next turnId now
  let m ← okOr moved error
  return ({ s with base }, m)

/-- Only the first caller may write; what a crash leaves is confirmed later or abandoned. -/
def begin_ (id instanceId session backendId : String) (now : Nat) :
    Except String (OpenCode × Bool) := do
  require (now < 2 ^ 63) "attempt time out of range"
  let paused ← s.base.deliveryPaused instanceId
  if paused then return (s, false)
  else
    match s.base.messages.get id, s.base.instances.get instanceId with
    | some m, some i =>
      if m.toInstance = instanceId ∧ m.state = .queued ∧ m.attemptedAtUnixMs = none ∧
          i.hosts session then do
        require (s.attempts.get id = none)
          "UNIQUE constraint failed: opencode_attempts.message_id"
        let m := { m with
          attemptedAtUnixMs := some now
          turnId := some (reference session backendId)
          updatedAtUnixMs := now }
        return ({ s with
          base := { s.base with messages := s.base.messages.put m }
          attempts := s.attempts.put ⟨id, session, backendId⟩ }, true)
      else return (s, false)
    | _, _ => return (s, false)

/-- HTTP 204 proves acceptance, not completion. -/
def accepted (id session backendId : String) (now : Nat) : Except String OpenCode := do
  let m ← okOr (s.base.messages.get id) "OpenCode message disappeared"
  if m.state = .queued ∧ attemptIs m session backendId = true then do
    let (base, _) ← s.base.advance id .sent (some (reference session backendId)) now
    return { s with base }
  else return s

/-- The row as a sent one. -/
def sent (m : Message) (session backendId : String) (now : Nat) :
    Except String (OpenCode × Message) :=
  if m.state = .queued then
    s.advance m.id .sent (some (reference session backendId)) now
      "OpenCode attempted message disappeared"
  else .ok (s, m)

/-- Called after the identity and the body were verified. -/
def confirm (id session backendId : String) (now : Nat) :
    Except String (OpenCode × Option Message) :=
  match s.base.messages.get id with
  | none => .ok (s, none)
  | some m =>
    if attemptIs m session backendId = false ∨ m.state = .failed then .ok (s, none)
    else do
      let (s, m) ← s.sent m session backendId now
      if m.state = .sent then do
        let (s, m) ← s.advance id .confirmed (some (reference session backendId)) now
          "OpenCode sent message disappeared"
        let s ← s.event m.toInstance session (.confirmed id) now
        return (s, some m)
      else return (s, some m)

/-- The attempt of a message of which nobody knows whether it arrived. -/
def unknown (id : String) : Option OpenCodeAttempt :=
  match s.base.messages.get id with
  | some m =>
    if (m.state = .queued ∨ m.state = .sent) ∧ m.attemptedAtUnixMs.isSome = true then
      s.attempts.get id
    else none
  | none => none

def abandonUnknownOpencode (id reason : String) (now : Nat) : Except String OpenCode := do
  let attempt ← okOr (s.unknown id) "delivery no longer has an unknown outcome; nothing changed"
  let (s, m) ← s.advance id .failed none now "missing OpenCode message"
  s.event m.toInstance attempt.sessionId (.abandoned id reason) now

/-- One completion: its events, unless it was seen before. -/
def complete (instanceId session : String) (now : Nat) (s : OpenCode)
    (row : String × Option String × Bool) : Except String OpenCode :=
  let (id, summary, limited) := row
  if ⟨instanceId, session, id⟩ ∈ s.observed then .ok s
  else do
    let s := { s with observed := ⟨instanceId, session, id⟩ :: s.observed }
    let s ← if limited then s.event instanceId session .usage now else .ok s
    s.event instanceId session (.completed summary) now

/-- The events and what is remembered of them commit together. -/
def completed (instanceId session : String) (rows : List (String × Option String × Bool))
    (now : Nat) : Except String OpenCode := do
  require (((s.base.instances.get instanceId).any fun i => decide (i.hosts session)) = true)
    "OpenCode completion session changed"
  rows.foldlM (complete instanceId session now) s

/-- Whether retention deletes the message. -/
def expired (now : Nat) (m : Message) : Bool :=
  if (s.base.deliveries.get m.id).isSome || (s.attempts.get m.id).isSome then
    (m.state = .confirmed || m.state = .failed) && m.updatedAtUnixMs < cutoff 30 now
  else m.createdAtUnixMs < cutoff 30 now

/-- A deleted message takes its attempt along. -/
def prune (now : Nat) : OpenCode :=
  let messages := s.base.messages.filter fun m => !s.expired now m
  { s with
    base := { s.base with
      messages
      deliveries := s.base.deliveries.filter fun d => (messages.get d.messageId).isSome }
    attempts := s.attempts.filter fun a => (messages.get a.messageId).isSome
    log := s.log.filter fun e => !decide (e.ingestedAtUnixMs < cutoff 14 now) }

end OpenCode

inductive OpenCodeCall where
  /-- A new message, or any call on an agent or its switch. -/
  | runtime (op : Operation)
  | begin_ (id instanceId session backendId : String) (now : Nat)
  | accepted (id session backendId : String) (now : Nat)
  | confirm (id session backendId : String) (now : Nat)
  | abandon (id reason : String) (now : Nat)
  | completed (instanceId session : String) (rows : List (String × Option String × Bool))
      (now : Nat)
  | prune (now : Nat)

inductive OpenCodeReply where
  | runtime (reply : Reply)
  | bool (b : Bool)
  | message (m : Option Message)
  | unit
  deriving DecidableEq

namespace OpenCode

/-- What was observed of a removed agent goes with it. -/
def cascade (s : OpenCode) (op : Operation) (base : Store) : OpenCode :=
  match op with
  | .removeInstance id =>
    { s with base, observed := s.observed.filter fun o => o.instanceId ≠ id }
  | _ => { s with base }

def exec (s : OpenCode) : OpenCodeCall → Except String (OpenCode × OpenCodeReply)
  | .runtime op => (s.base.exec op).map fun (base, r) => (s.cascade op base, .runtime r)
  | .begin_ id instanceId session backendId now =>
    (s.begin_ id instanceId session backendId now).map fun (s, b) => (s, .bool b)
  | .accepted id session backendId now =>
    (s.accepted id session backendId now).map fun s => (s, .unit)
  | .confirm id session backendId now =>
    (s.confirm id session backendId now).map fun (s, m) => (s, .message m)
  | .abandon id reason now => (s.abandonUnknownOpencode id reason now).map fun s => (s, .unit)
  | .completed instanceId session rows now =>
    (s.completed instanceId session rows now).map fun s => (s, .unit)
  | .prune now => .ok (s.prune now, .unit)

/-- A call that fails leaves the tables as they were. -/
def call (s : OpenCode) (c : OpenCodeCall) : OpenCode × Except String OpenCodeReply :=
  match s.exec c with
  | .ok (s', reply) => (s', .ok reply)
  | .error text => (s, .error text)

end OpenCode

/-- Whether the call is one of this machine: messages are only ever stored by the others. -/
def OpenCodeCall.own : OpenCodeCall → Bool
  | .runtime (.claimMessage _ _) => true
  | .runtime op => !op.delivers
  | _ => true

/-- Any calls in any order, from empty tables. -/
def opencode : Machine OpenCode OpenCodeCall (Except String OpenCodeReply) where
  init s := s = OpenCode.empty
  step s c s' o := c.own = true ∧ s.call c = (s', o)

end Agend.Runtime
