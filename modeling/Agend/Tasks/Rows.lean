import Mathlib.Algebra.Group.Nat.Defs
import Agend.Engine.Commands
import Agend.Library.Transaction
import Agend.Runtime.Attempts

/-! The rows of `tasks` and `task_events`, and the transaction that moves a task: it compares the
version, writes every column, appends the event and confirms the dispatch it answers. -/
namespace Agend.Tasks

open Library Pipeline Engine
open Agend.Runtime (DeliveryState Message)

/-- The text of the `pipeline` column: a stored snapshot, or text that is none, such as `{}`. -/
inductive PipelineText where
  | snapshot (p : PipelineSnapshot)
  | unreadable
  deriving DecidableEq

structure TaskProgress where
  pipeline : PipelineText
  stageEnteredAtUnixMs : Nat
  mergeIntent : Option String
  blockReason : Option String
  deriving DecidableEq

structure Row where
  task : Task
  version : Nat
  pipeline : Option PipelineText
  stageEnteredAtUnixMs : Nat
  mergeIntent : Option String
  blockReason : Option String
  attentionReason : Option String
  failureAcknowledged : Bool
  attentionRevision : Nat
  deriving DecidableEq

namespace Row

variable (r : Row)

def id : String := r.task.id

/-- `progress`: the pipeline columns of a task that has a pipeline. -/
def progress : Option TaskProgress :=
  r.pipeline.map fun p => ⟨p, r.stageEnteredAtUnixMs, r.mergeIntent, r.blockReason⟩

/-- The columns of a task and its version. -/
def write (task : Task) (version : Nat) : Row := { r with task := task, version := version }

/-- The pipeline columns. -/
def setProgress (p : TaskProgress) : Row :=
  { r with
    pipeline := some p.pipeline
    stageEnteredAtUnixMs := p.stageEnteredAtUnixMs
    mergeIntent := p.mergeIntent
    blockReason := p.blockReason }

def note (block attention : Option String) (ack : Bool) : Row :=
  { r with
    attentionRevision := r.attentionRevision +
      if r.blockReason ≠ block ∨ r.attentionReason ≠ attention ∨ r.failureAcknowledged ≠ ack then 1
      else 0
    blockReason := block
    attentionReason := attention
    failureAcknowledged := ack }

end Row

structure StoredEvent where
  id : String
  occurredAtUnixMs : Nat
  kind : String
  detail : String
  deriving DecidableEq

structure EventRow where
  taskId : String
  event : StoredEvent
  deriving DecidableEq

/-- The tables that a transition touches, and the rest of the message tables. -/
structure Db where
  tasks : Table Row.id
  events : List EventRow
  mail : Agend.Runtime.Store

inductive CasResult where
  | written (newVersion : Nat)
  | conflict (currentVersion : Option Nat)
  deriving DecidableEq

def CasResult.isWritten : CasResult → Bool
  | .written _ => true
  | .conflict _ => false

/-- Version of a newly created task. -/
def firstVersion : Nat := 1

/-- What a statement that the disk refuses reports. -/
def diskError : String := "sqlite: disk I/O error"

def toI64 (value : Nat) (what : String) : Except String Nat :=
  if value < 2 ^ 63 then .ok value else .error s!"{what} {value} is too large"

abbrev Transaction (α : Type) : Type := Tx Db String α

/-- A statement that reads and writes the tables. -/
abbrev statement {α : Type} (f : Db → Except String (α × Db)) : Transaction α :=
  Tx.statement diskError f

def putRow (db : Db) (r : Row) : Db := { db with tasks := db.tasks.put r }

/-- `UPDATE ... WHERE id = ? AND version = ?`: how many rows it wrote. -/
def update (task : Task) (version expected : Nat) (db : Db) : Except String (Bool × Db) := do
  let _ ← toI64 task.workflowVersion "workflow version"
  match db.tasks.get task.id with
  | some r =>
    if r.version = expected then .ok (true, putRow db (r.write task version)) else .ok (false, db)
  | none => .ok (false, db)

/-- Writes only when the stored version equals `expected`; the version then grows by 1. -/
def compareAndSwap (task : Task) (expected : Nat) : Transaction CasResult := do
  let current : Transaction CasResult :=
    statement fun db => .ok (.conflict ((db.tasks.get task.id).map (·.version)), db)
  -- A version this large was never issued, so it cannot match.
  if expected < 2 ^ 63 then
    if expected + 1 < 2 ^ 63 then
      let found ← statement (update task (expected + 1) expected)
      if found then pure (.written (expected + 1)) else current
    else Tx.fail "task version overflow"
  else current

def writeProgress (id : String) (p : TaskProgress) : Transaction Unit :=
  statement fun db => do
    let _ ← toI64 p.stageEnteredAtUnixMs "stage entry"
    match db.tasks.get id with
    | some r => .ok ((), putRow db (r.setProgress p))
    | none => .ok ((), db)

def clearAttention (id : String) : Transaction Unit :=
  statement fun db =>
    match db.tasks.get id with
    | some r => .ok ((), putRow db { r with attentionReason := none })
    | none => .ok ((), db)

def appendEvent (id : String) (event : StoredEvent) : Transaction Unit :=
  statement fun db => do
    let _ ← toI64 event.occurredAtUnixMs "event time"
    require ((db.tasks.get id).isSome) s!"unknown task {id}"
    .ok ((), { db with events := db.events ++ [⟨id, event⟩] })

/-- `messages::advance`, one point of failure for its statements. -/
def advanceMessage (id : String) (next : DeliveryState) (now : Nat) : Transaction Unit :=
  statement fun db =>
    (db.mail.advance id next none now).map fun (mail, _) => ((), { db with mail := mail })

/-- The dispatch that a result answers was received. A task result is independent of an explicit
Claude ACK, so a tracked message keeps its state. -/
def confirm (id : String) (now : Nat) : Transaction Unit := do
  let found : Option Message ← statement fun db => .ok (db.mail.messages.get id, db)
  match found with
  | none => pure ()
  | some message =>
    if message.state = .failed then Tx.fail "cannot confirm a failed dispatch"
    else
      let tracked : Bool ← statement fun db => .ok ((db.mail.deliveries.get id).isSome, db)
      if tracked then pure ()
      else
        (if message.state = .queued then advanceMessage id .sent now else pure ())
        (if message.state ≠ .confirmed then advanceMessage id .confirmed now else pure ())

/-- The statements after a version that matched. -/
def writes (task : Task) (progress : TaskProgress) (event : StoredEvent)
    (confirmation : Option String) (clear : Bool) : Transaction Unit := do
  writeProgress task.id progress
  (if clear then clearAttention task.id else pure ())
  appendEvent task.id event
  match confirmation with
  | none => pure ()
  | some id => confirm id event.occurredAtUnixMs

def advanceWithReceipt (task : Task) (expected : Nat) (progress : TaskProgress)
    (event : StoredEvent) (confirmation : Option String) (clear : Bool) :
    Transaction CasResult := do
  let result ← compareAndSwap task expected
  if result.isWritten then
    writes task progress event confirmation clear
    Tx.commit diskError
    pure result
  else pure result

def advancePipeline (task : Task) (expected : Nat) (progress : TaskProgress) (event : StoredEvent)
    (confirmation : Option String) : Transaction CasResult :=
  advanceWithReceipt task expected progress event confirmation true

def advanceTask (task : Task) (expected : Nat) (progress : TaskProgress) (event : StoredEvent) :
    Transaction CasResult :=
  advanceWithReceipt task expected progress event none false

/-- A single statement commits by itself. -/
def compareAndSwapTask (task : Task) (expected : Nat) : Transaction CasResult := do
  let result ← compareAndSwap task expected
  if result.isWritten then
    Tx.commit diskError
    pure result
  else pure result

def newRow (task : Task) : Row :=
  ⟨task, firstVersion, none, 0, none, none, none, false, 0⟩

def insert (task : Task) : Transaction Unit :=
  statement fun db => do
    let _ ← toI64 task.workflowVersion "workflow version"
    require ((db.tasks.get task.id).isNone) s!"task {task.id} already exists"
    .ok ((), putRow db (newRow task))

def createPipelineTask (task : Task) (pipeline : PipelineText) (now : Nat) : Transaction Unit := do
  insert task
  statement fun db => do
    let now ← toI64 now "stage entry"
    match db.tasks.get task.id with
    | some r => .ok ((), putRow db { r with
        pipeline := some pipeline
        stageEnteredAtUnixMs := now })
    | none => .ok ((), db)
  Tx.commit diskError
  pure ()

def createTask (task : Task) : Transaction Unit := do
  insert task
  Tx.commit diskError
  pure ()

def taskNote (id : String) (block attention : Option String) (ack : Bool) : Transaction Unit := do
  statement fun db =>
    match db.tasks.get id with
    | some r => .ok ((), putRow db (r.note block attention ack))
    | none => .ok ((), db)
  Tx.commit diskError
  pure ()

end Agend.Tasks
