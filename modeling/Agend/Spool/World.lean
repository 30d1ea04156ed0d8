import Mathlib.Data.String.Basic
import Agend.Library.Decimal
import Agend.Library.Json
import Agend.Library.KeySort
import Agend.Library.Processes
import Agend.Spool.Events

/-! Receipts of Claude helpers: their files, the requests that carry them to the daemon, and what
the helpers and the daemon call. -/
namespace Agend.Spool

open Library
open Agend.Runtime hiding Reply

inductive Kind where
  | hooks
  | acks
  deriving DecidableEq

structure Receipt where
  messageId : String
  deliveryId : String
  sessionId : String
  deriving DecidableEq

structure HookData where
  eventId : String
  sessionId : String
  event : String
  payload : String
  occurredAtUnixMs : Nat
  replayed : Bool
  deriving DecidableEq

/-- The operations that are kept in files. -/
inductive ClaudeOperation where
  | ack (receipts : List Receipt)
  | hook (data : HookData)
  deriving DecidableEq

structure ClaudeRequest where
  requestId : String
  instanceId : String
  operation : ClaudeOperation
  deriving DecidableEq

structure PendingRecord where
  version : Nat
  request : ClaudeRequest
  deriving DecidableEq

/-- A file name: a number of twenty digits and a UUID. -/
structure Name where
  seq : Nat
  id : String
  deriving DecidableEq

structure Entry where
  name : Name
  record : PendingRecord
  deriving DecidableEq

/-- A directory of the spool. `published` keeps what was ever published, newest first. -/
structure Dir where
  counter : Option Nat
  files : List Entry
  published : List Entry
  deriving DecidableEq

/-- A reply, or a refusal. -/
inductive Outcome where
  | reply (committed : Bool)
  | refused
  deriving DecidableEq

/-- An append of a hook's event that succeeded. -/
structure Attempt where
  process : Nat
  event : String
  inserted : Bool
  deriving DecidableEq

/-- The files under their lock, the store, and the requests that were sent with their replies.
`attempts` and `confirmations` keep what was appended and confirmed. -/
structure World where
  lock : Option Nat
  hooks : Dir
  acks : Dir
  store : Store
  sent : List ClaudeRequest
  replies : List (Nat × Outcome)
  attempts : List Attempt
  confirmations : List ClaudeAck

def HookData.toEvent (hook : HookData) (instanceId : String) : DriverEvent :=
  ⟨hook.eventId, instanceId, hook.sessionId, hook.event, hook.payload, hook.occurredAtUnixMs,
    hook.replayed⟩

def Receipt.ack (r : Receipt) (instanceId : String) : ClaudeAck :=
  ⟨r.messageId, r.deliveryId, instanceId, r.sessionId⟩

namespace ClaudeRequest

variable (r : ClaudeRequest)

/-- The request as a replay sends it. -/
def replay : ClaudeRequest :=
  match r.operation with
  | .ack _ => r
  | .hook data => { r with operation := .hook { data with replayed := true } }

def fits : Kind → Bool
  | .hooks => match r.operation with
    | .hook _ => true
    | .ack _ => false
  | .acks => match r.operation with
    | .ack _ => true
    | .hook _ => false

end ClaudeRequest

def Name.text (n : Name) : String :=
  String.ofList (padded 20 n.seq) ++ "-" ++ n.id ++ ".json"

/-- What is read by code of others: whether SQLite sees a JSON object, JSON as it is parsed, and
whether a record is longer than a line may be. -/
structure Formats where
  object : String → Bool
  parse : String → Option Json
  tooLong : PendingRecord → Bool

/-- What the rest of the daemon does to the store. -/
inductive Move where
  | call (op : Operation)
  | append (event : DriverEvent)
  | prune (events messages : List String)

/-- An event of another source; ids are unique. -/
def appended (s : Store) (event : DriverEvent) : Store :=
  match s.events.get event.id with
  | some _ => s
  | none => { s with events := s.events.put event }

/-- Rows that are old enough go. -/
def pruned (s : Store) (events messages : List String) : Store :=
  { s with
    events := s.events.filter fun e => e.id ∉ events,
    messages := s.messages.filter fun m => m.id ∉ messages,
    deliveries := s.deliveries.filter fun d => d.messageId ∉ messages }

inductive Call where
  | lock (process : Nat)
  | tryLock (process : Nat)
  | unlock (process : Nat)
  | readCounter (kind : Kind)
  | writeCounter (kind : Kind) (n : Nat)
  | newId
  | writeRecord (kind : Kind) (e : Entry)
  | list (kind : Kind)
  | read (kind : Kind) (name : Name)
  | remove (process : Nat) (kind : Kind) (name : Name)
  | post (request : ClaudeRequest)
  | await (id : Nat)
  | late
  -- The daemon.
  | now
  | appendEvent (process : Nat) (event : DriverEvent) (now : Nat)
  | haltStartup (instanceId session : String)
  | revokeRouting (process : Nat) (hook : HookData)
  | route (process : Nat) (hook : HookData)
  | acknowledge (ack : ClaudeAck) (now : Nat)
  | respond (process id : Nat) (outcome : Outcome)
  | retain (process : Nat) (kind : Kind) (name : Name)
  deriving DecidableEq

def Call.Reply : Call → Type
  | .tryLock _ => Bool
  | .readCounter _ => Option Nat
  | .newId => String
  | .list _ => List Name
  | .read _ _ => PendingRecord
  | .post _ => Nat
  | .await _ => Outcome
  | .late => Bool
  | .now => Nat
  | .appendEvent _ _ _ => Bool
  | .acknowledge _ _ => ClaudeAckResult
  | _ => Unit

/-- What may be done although it reports an error: a rename or an unlink that was not synced. -/
def Call.lands : Call → Bool
  | .writeCounter _ _ | .writeRecord _ _ | .remove _ _ _ => true
  | _ => false

/-- What always returns. -/
def Call.certain : Call → Bool
  | .unlock _ | .late | .now | .respond _ _ _ | .retain _ _ _ => true
  | _ => false

/-- What the environment decides about a call: what the rest of the daemon did before it, whether it
fails and yet has its effect, and what comes from elsewhere. -/
structure Answer where
  moves : List Move := []
  fault : Option String := none
  landed : Bool := false
  text : String := ""
  now : Nat := 0
  late : Bool := false

namespace World

variable (F : Formats) (a : Answer) (w : World)

def empty : World :=
  ⟨none, ⟨none, [], []⟩, ⟨none, [], []⟩, .empty, [], [], [], []⟩

def dir : Kind → Dir
  | .hooks => w.hooks
  | .acks => w.acks

def setDir : Kind → Dir → World
  | .hooks, d => { w with hooks := d }
  | .acks, d => { w with acks := d }

def move : Move → World
  | .call op => { w with store := (w.store.call op).1 }
  | .append event => { w with store := appended w.store event }
  | .prune events messages => { w with store := pruned w.store events messages }

def outside (moves : List Move) : World := moves.foldl move w

def perform : (c : Call) → Except String c.Reply × World
  | .lock i =>
    match w.lock with
    | none => (.ok (), { w with lock := some i })
    | some _ => (.error "spool lock deadline elapsed", w)
  | .tryLock i =>
    match w.lock with
    | none => (.ok true, { w with lock := some i })
    | some _ => (.ok false, w)
  | .unlock i => (.ok (), if w.lock = some i then { w with lock := none } else w)
  | .readCounter kind => (.ok (w.dir kind).counter, w)
  | .writeCounter kind n => (.ok (), w.setDir kind { w.dir kind with counter := some n })
  | .newId => (.ok a.text, w)
  | .writeRecord kind e => (.ok (), w.setDir kind { w.dir kind with
      files := e :: (w.dir kind).files,
      published := e :: (w.dir kind).published })
  | .list kind => (.ok (sortByKey Name.text ((w.dir kind).files.map (·.name))), w)
  | .read kind name =>
    match (w.dir kind).files.find? (·.name = name) with
    | some e => (.ok e.record, w)
    | none => (.error "No such file or directory", w)
  | .remove _ kind name =>
    if (w.dir kind).files.any (·.name = name) then
      (.ok (), w.setDir kind { w.dir kind with
        files := (w.dir kind).files.filter (·.name ≠ name) })
    else (.error "No such file or directory", w)
  | .post request => (.ok w.sent.length, { w with sent := w.sent ++ [request] })
  | .await id =>
    match w.replies.lookup id with
    | some outcome => (.ok outcome, w)
    | none => (.error "no reply", w)
  | .late => (.ok a.late, w)
  | .now => (.ok a.now, w)
  | .appendEvent i event now =>
    match w.store.appendDriverEvent F.object event now with
    | .ok (store, inserted) => (.ok inserted, { w with
        store := store,
        attempts := ⟨i, event.id, inserted⟩ :: w.attempts })
    | .error text => (.error text, w)
  | .haltStartup _ _ => (.ok (), w)
  | .revokeRouting _ _ => (.ok (), w)
  | .route _ _ => (.ok (), w)
  | .acknowledge ack now =>
    match w.store.acknowledge ack a.text now with
    | .ok (store, .confirmed) => (.ok .confirmed, { w with
        store := store,
        confirmations := ack :: w.confirmations })
    | .ok (store, .alreadyConfirmed) => (.ok .alreadyConfirmed, { w with store := store })
    | .error text => (.error text, w)
  | .respond _ id outcome => (.ok (), { w with replies := (id, outcome) :: w.replies })
  | .retain _ _ _ => (.ok (), w)

def exec (c : Call) : Except String c.Reply × World :=
  let w := w.outside a.moves
  match a.fault with
  | some reason =>
    if c.certain then w.perform F a c
    else (.error reason, if a.landed && c.lands then (w.perform F a c).2 else w)
  | none => w.perform F a c

end World

def interface (F : Formats) : Interface World String where
  Call := Call
  Reply := Call.Reply
  Answer := Answer
  exec c a w := w.exec F a c

end Agend.Spool
