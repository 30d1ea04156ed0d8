import Mathlib.Algebra.Group.Nat.Defs
import Agend.Spool.World

/-! The helpers of Claude, the daemon's pass over their files, and what the daemon does for a
request. -/
namespace Agend.Spool

open Library Program
open Agend.Runtime hiding Reply

section

variable (F : Formats)

abbrev Routine (α : Type) := Program (interface F) α

def call (c : Call) : Routine F c.Reply := Program.ask (I := interface F) c

/-! The daemon. -/

def nativeHooks : List String :=
  ["SessionStart", "UserPromptSubmit", "PreToolUse", "PostToolUse", "Stop", "SessionEnd"]

/-- The payload names the session and the event of the hook. -/
def HookData.identified (hook : HookData) (native : Json) : Bool :=
  (native.get? "session_id").bind Json.asStr = some hook.sessionId &&
    (native.get? "hook_event_name").bind Json.asStr = some hook.event

def halts (event : String) : Bool := ["UserPromptSubmit", "SessionEnd", "Stop"].contains event

def routes (event : String) : Bool :=
  ["SessionStart", "UserPromptSubmit", "SessionEnd", "Stop"].contains event

/-- Duplicate, replayed or old hooks can only take routing away; others set it. -/
def routeHook (process : Nat) (hook : HookData) (inserted : Bool) (now : Nat) : Routine F Unit :=
  if hook.replayed || !inserted ||
      5000 < max now hook.occurredAtUnixMs - min now hook.occurredAtUnixMs then
    if inserted && routes hook.event then call F (.revokeRouting process hook) else pure ()
  else call F (.route process hook)

def haltStartup (instanceId : String) (hook : HookData) (inserted : Bool) : Routine F Unit :=
  if inserted && halts hook.event then call F (.haltStartup instanceId hook.sessionId) else pure ()

def executeHook (process : Nat) (instanceId : String) (hook : HookData) : Routine F Unit := do
  let now : Nat ← call F .now
  check (nativeHooks.contains hook.event) "unsupported native Claude hook"
  let native ← orRaise (F.parse hook.payload) "invalid hook payload"
  check (hook.identified native) "hook payload identity mismatch"
  let inserted : Bool ← call F (.appendEvent process (hook.toEvent instanceId) now)
  haltStartup F instanceId hook inserted
  routeHook F process hook inserted now

def executeAck (instanceId : String) (receipts : List Receipt) : Routine F Unit := do
  let now : Nat ← call F .now
  check (!receipts.isEmpty && receipts.length ≤ 32) "invalid receipt count"
  forEach (fun r => do
    let _ ← call F (.acknowledge (r.ack instanceId) now)
    pure ()) receipts

/-- A request that is executed is committed. -/
def execute (process : Nat) (request : ClaudeRequest) : Routine F Unit :=
  match request.operation with
  | .ack receipts => executeAck F request.instanceId receipts
  | .hook hook => executeHook F process request.instanceId hook

def handle (process id : Nat) (request : ClaudeRequest) : Routine F Unit := do
  let result ← attempt (execute F process request)
  call F (.respond process id (if result.isOk then .reply true else .refused))

/-- A record as it is read for a replay, with the errors of the one that reads it. -/
def readRecord (version unfit : String) (kind : Kind) (name : Name) : Routine F ClaudeRequest := do
  let p : PendingRecord ← call F (.read kind name)
  check (p.version = 1) version
  check (p.request.fits kind) unfit
  pure p.request.replay

def readPending : Kind → Name → Routine F ClaudeRequest :=
  readRecord F "unsupported pending version" "pending record is not a hook or ACK"

/-- The records that can be read. -/
def readAll (process : Nat) (kind : Kind) : List Name → Routine F (List (Name × ClaudeRequest))
  | [] => pure []
  | name :: rest => do
    let read ← attempt (readPending F kind name)
    match read with
    | .ok request => do
      let later ← readAll process kind rest
      pure ((name, request) :: later)
    | .error _ => do
      call F (.retain process kind name)
      readAll process kind rest

/-- Past the last file of the pass before; from the start when none is left. -/
def remaining (after : Option Name) (names : List Name) : List Name :=
  let later := names.filter fun n => after.all fun a => a.text < n.text
  if later.isEmpty then names else later

def applyPending (process : Nat) (kind : Kind) (pending : Name × ClaudeRequest) :
    Routine F Unit := do
  let result ← attempt (execute F process pending.2)
  match result with
  | .ok _ => do
    let _ ← attempt (call F (.remove process kind pending.1))
    pure ()
  | .error _ => call F (.retain process kind pending.1)

/-- One pass of the daemon over a directory. -/
def ingest (process : Nat) (kind : Kind) (after : Option Name) : Routine F Unit := do
  let held : Bool ← call F (.tryLock process)
  check held "another process has the lock"
  let names : List Name ← call F (.list kind)
  let records ← readAll F process kind ((remaining after names).take 32)
  forEach (applyPending F process kind) records
  call F (.unlock process)

/-! The helpers. -/

/-- `p` under the lock, which is let go whatever `p` returns. -/
def locked {α : Type} (process : Nat) (p : Routine F α) : Routine F α := do
  call F (.lock process)
  let result ← attempt p
  call F (.unlock process)
  Program.done result

def publish (kind : Kind) (request : ClaudeRequest) : Routine F Name := do
  let pending : PendingRecord := ⟨1, request⟩
  check (!F.tooLong pending) "spool payload exceeds line limit"
  let counter : Option Nat ← call F (.readCounter kind)
  let seq := counter.getD 0 + 1
  check (seq < 2 ^ 64) "spool counter exhausted"
  call F (.writeCounter kind seq)
  let id : String ← call F .newId
  call F (.writeRecord kind ⟨⟨seq, id⟩, pending⟩)
  pure ⟨seq, id⟩

def exchange (request : ClaudeRequest) : Routine F Outcome := do
  let id : Nat ← call F (.post request)
  call F (.await id)

/-- The first live request of a record that was just published. -/
def sendLive (process : Nat) (request : ClaudeRequest) (name : Name) : Routine F Unit := do
  let outcome ← exchange F request
  if outcome = .reply true then call F (.remove process .hooks name) else pure ()

def hook (process : Nat) (requestId instanceId : String) (data : HookData) : Routine F Unit := do
  let request : ClaudeRequest := ⟨requestId, instanceId, .hook { data with replayed := false }⟩
  let _ ← locked F process do
    let name ← publish F .hooks request
    attempt (sendLive F process request name)
  pure ()

def readSpooled : Kind → Name → Routine F ClaudeRequest :=
  readRecord F "unsupported spool version" "pending file is not a replayable hook or ACK"

def replayAll (process : Nat) (kind : Kind) : List Name → Bool → Routine F Unit
  | [], refused => check (!refused) "the daemon refused a record"
  | name :: rest, refused => do
    let late : Bool ← call F .late
    if late then check (!refused) "the daemon refused a record"
    else do
      let request ← readSpooled F kind name
      let outcome ← exchange F request
      match outcome with
      | .refused => replayAll process kind rest true
      | .reply committed => do
        check committed "daemon did not commit the pending receipt"
        call F (.remove process kind name)
        replayAll process kind rest refused

def replay (process : Nat) (kind : Kind) : Routine F Unit :=
  locked F process do
    let names : List Name ← call F (.list kind)
    replayAll F process kind names false

def Receipt.valid (r : Receipt) : Bool :=
  r.messageId ≠ "" && r.messageId.utf8ByteSize ≤ 2 ^ 20 && isUuidV4 r.deliveryId &&
    isUuidV4 r.sessionId

/-- `agend_ack`: the receipts are saved one by one before any is sent. -/
def ack (process : Nat) (instanceId : String) (receipts : List Receipt) : Routine F Unit := do
  check (!receipts.isEmpty && receipts.length ≤ 32 && receipts.all Receipt.valid)
    "ACK requires 1..32 nonempty message ids and UUID v4 delivery/session ids"
  forEach (fun r => do
    let requestId : String ← call F .newId
    let _ ← locked F process (publish F .acks ⟨requestId, instanceId, .ack [r]⟩)
    pure ()) receipts
  replay F process .acks

inductive Task where
  | hook (requestId instanceId : String) (data : HookData)
  | ack (instanceId : String) (receipts : List Receipt)
  | replay (kind : Kind)
  | ingest (kind : Kind) (after : Option Name)
  | handle (id : Nat) (request : ClaudeRequest)

def main (process : Nat) : Task → Routine F Unit
  | .hook requestId instanceId data => hook F process requestId instanceId data
  | .ack instanceId receipts => ack F process instanceId receipts
  | .replay kind => replay F process kind
  | .ingest kind after => ingest F process kind after
  | .handle id request => handle F process id request

/-- The system lets go of the lock of a process that ends. -/
def system : System (interface F) where
  Task := Task
  main := main F
  leave i w := if w.lock = some i then { w with lock := none } else w

end

end Agend.Spool
