import Agend.Library.Except
import Agend.Library.Trace

/-! The holder's PTY: who owns the terminal, what may be put on the one write queue, and what each
operation checks again when the writer reaches it. A screen is its generation, revision and size;
its cells are left out, and what depends on them, on the system or on the client's pace is answered
from outside. -/
namespace Agend.Holder

open Library

/-- Writes waiting for the PTY; one more may be in flight in the writer thread. -/
def writeQueue : Nat := 64

def maxFrameLine : Nat := 8388608

def maxScreenSide : Nat := 1000

/-- The length of an empty cell on the wire. -/
def minCellBytes : Nat := 158

abbrev Bytes := List UInt8

inductive ControlKey where
  | esc | enter | up | down | left | right | digit1 | digit2 | digit3 | y | n | unknown
  deriving DecidableEq

/-- Bytes written to the PTY for a control key. -/
def controlKeyBytes : ControlKey → Option Bytes
  | .esc => some [0x1b]
  | .enter => some [0x0d]
  | .up => some [0x1b, 0x5b, 0x41]
  | .down => some [0x1b, 0x5b, 0x42]
  | .right => some [0x1b, 0x5b, 0x43]
  | .left => some [0x1b, 0x5b, 0x44]
  | .digit1 => some [0x31]
  | .digit2 => some [0x32]
  | .digit3 => some [0x33]
  | .y => some [0x79]
  | .n => some [0x6e]
  | .unknown => none

structure TerminalSize where
  rows : Nat
  columns : Nat
  deriving DecidableEq

def TerminalSize.isValid (size : TerminalSize) : Bool :=
  1 ≤ size.rows && size.rows ≤ maxScreenSide && 1 ≤ size.columns && size.columns ≤ maxScreenSide

inductive FrameError where
  | invalidSize
  | tooLarge
  deriving DecidableEq

def FrameError.code : FrameError → String
  | .invalidSize => "invalid_size"
  | .tooLarge => "frame_too_large"

def FrameError.message : FrameError → String
  | .invalidSize => "viewport rows must be between 1 and the PTY height"
  | .tooLarge => "terminal frame exceeds 8 MiB; nothing was truncated"

/-- `minimum` is the length of an empty cell on the wire. -/
def validateFrameSize (minimum : Nat) (size : TerminalSize) : Except FrameError Unit :=
  if !size.isValid then .error .invalidSize
  else if size.rows * size.columns * minimum > maxFrameLine then .error .tooLarge
  else .ok ()

structure Screen where
  generation : String
  revision : Nat
  size : TerminalSize
  deriving DecidableEq

namespace Screen

def process (s : Screen) (bytes : Bytes) : Screen :=
  if bytes.isEmpty then s else { s with revision := s.revision + 1 }

def resize (s : Screen) (size : TerminalSize) : Screen :=
  if size = s.size then s else { s with revision := s.revision + 1, size }

end Screen

inductive TerminalControlOperation where
  | daemonKey (key : ControlKey) (expectedRevision : Nat)
  | acquire (attachId : String) (size : TerminalSize)
  | resize (attachId : String) (size : TerminalSize)
  | input (attachId bytesBase64 : String)
  | release (attachId : String)
  deriving DecidableEq

def TerminalControlOperation.attachId : TerminalControlOperation → String
  | .daemonKey _ _ => ""
  | .acquire attach _ | .resize attach _ | .input attach _ | .release attach => attach

def TerminalControlOperation.isAcquire : TerminalControlOperation → Bool
  | .acquire _ _ => true
  | _ => false

def TerminalControlOperation.isDaemonKey : TerminalControlOperation → Bool
  | .daemonKey _ _ => true
  | _ => false

structure TerminalControlRequest where
  requestId : String
  generation : String
  operation : TerminalControlOperation
  deriving DecidableEq

structure TerminalControlData where
  requestId : String
  generation : String
  attachId : Option String
  frame : Option Screen
  deriving DecidableEq

/-- Answers whose content nothing here reads carry none. -/
inductive HolderResponse where
  | hello (minor : Nat)
  | screenSnapshot
  | exited
  | spawned
  | ptyBytes (bytes : Bytes)
  | terminalFrame (requestId : String)
  | terminalControl (data : TerminalControlData)
  | terminalOperationError (requestId code message : String)
  | error (code message : String)
  deriving DecidableEq

def failed (requestId code message : String) : HolderResponse :=
  .terminalOperationError requestId code message

/-- The client in charge; `structured` once it used the structured protocol. -/
structure Conn where
  id : Nat
  minor : Nat
  structured : Bool
  deriving DecidableEq

inductive Stop where
  | shutdown
  | homeDeleted
  | idle
  deriving DecidableEq

/-- One entry of the write queue. An operation remembers the connection that enqueued it. -/
inductive Job where
  | bytes (bytes : Bytes)
  | control (conn : Nat) (request : TerminalControlRequest) (bytes : Option Bytes)
  | legacy (conn : Nat) (bytes : Bytes)
  deriving DecidableEq

/-- What the writer thread is writing, and what of it is left. -/
structure Writing where
  job : Job
  left : Bytes
  deriving DecidableEq

/-- A change of the terminal's owner. -/
inductive Ownership where
  | acquired (conn : Nat) (attach : String)
  | ended
  deriving DecidableEq

structure State where
  control : Option String
  screen : Screen
  conn : Option Conn
  nextConn : Nat
  /-- Id of the newest connection that completed `hello`. -/
  latestConn : Nat
  agent : Bool
  spawnedOnce : Bool
  exited : Bool
  stop : Option Stop
  /-- The writer thread runs. -/
  writer : Bool
  queue : List Job
  current : Option Writing
  /-- Every change of `control`, newest first. -/
  owners : List Ownership
  /-- Every answer, newest first, with the connection it went to. -/
  sent : List (Nat × HolderResponse)
  deriving DecidableEq

inductive QueueError where
  | busy
  | closed
  deriving DecidableEq

/-- What the PTY and the cells answer to an `Acquire` or `Resize`. -/
structure Answers where
  resized : Except String Unit
  framed : Except FrameError Unit
  /-- The whole answer fits in a line. -/
  fits : Bool

namespace State

/-- Ownership ends. -/
def endControl (s : State) : State :=
  { s with control := none, owners := .ended :: s.owners }

/-- Queues an answer for the current client, or drops the client if it lags. -/
def push (s : State) (response : HolderResponse) (lags : Bool) : State :=
  match s.conn with
  | none => s
  | some conn =>
    if lags then { s with conn := none }.endControl
    else { s with sent := (conn.id, response) :: s.sent }

/-- The connection is the one in charge. -/
def isCurrent (s : State) (connId : Nat) : Bool :=
  s.conn.any fun conn => conn.id = connId

def running (s : State) : Bool :=
  s.stop.isNone && s.agent && !s.exited

def submit (s : State) (job : Job) : Except QueueError State :=
  if !s.writer then .error .closed
  else if s.queue.length < writeQueue then .ok { s with queue := s.queue ++ [job] }
  else .error .busy

end State

/-- A size that an `Acquire` or `Resize` may ask for. -/
def validateSize : TerminalControlOperation → Except (String × String) Unit
  | .acquire _ size | .resize _ size => do
    require (size.isValid = true) ("invalid_size", "rows and columns must be 1 to 1000")
    match validateFrameSize minCellBytes size with
    | .ok () => .ok ()
    | .error _ =>
      .error ("frame_too_large", "this PTY size cannot produce a frame within 8 MiB")
  | _ => .ok ()

/-- What the current client may do now. -/
def validate (s : State) (connId : Nat) (request : TerminalControlRequest) :
    Except (String × String) Unit := do
  require (s.isCurrent connId = true)
    ("stale_terminal", "the holder connection changed; acquire control again")
  require (s.running = true) ("agent_exited", "there is no live agent PTY")
  require (request.generation = s.screen.generation)
    ("stale_terminal", "the holder generation changed; acquire control again")
  match request.operation with
  | .daemonKey key expectedRevision => do
    require (s.control = none)
      ("control_lost", "an operator owns this terminal; daemon key refused")
    require (expectedRevision = s.screen.revision)
      ("stale_screen", "the screen changed; daemon key refused")
    require ((controlKeyBytes key).isSome = true)
      ("unknown_control_key", "unknown daemon control key")
  | operation => do
    require (1 ≤ operation.attachId.utf8ByteSize ∧ operation.attachId.utf8ByteSize ≤ 128)
      ("invalid_request", "attach id must have 1 to 128 bytes")
    require (operation.isAcquire = true ∨ s.control = some operation.attachId)
      ("control_lost", "another window controls this terminal; acquire control again")
    validateSize operation

section
variable (decode : String → Except String Bytes)

/-- The bytes an operation writes, decoded before it is enqueued. -/
def operationBytes : TerminalControlOperation → Except String (Option Bytes)
  | .daemonKey key _ => .ok (controlKeyBytes key)
  | .input _ bytesBase64 => (decode bytesBase64).map some
  | _ => .ok none

/-- Puts a control operation on the write queue, or says why not. -/
def accepted (s : State) (conn : Conn) (request : TerminalControlRequest) :
    Except (String × String) State := do
  require (1 ≤ conn.minor)
    ("not_supported", "terminal control requires holder protocol 1.1")
  require (request.operation.isDaemonKey = true → 2 ≤ conn.minor)
    ("not_supported", "daemon key completion requires holder protocol 1.2")
  -- the other operations are checked when they run: an earlier `Acquire` may still wait
  (match request.operation with
    | .acquire _ _ => validate s conn.id request
    | _ => .ok ())
  require (s.running = true) ("agent_exited", "there is no live agent PTY")
  require (request.generation = s.screen.generation)
    ("stale_terminal", "the holder generation changed; acquire control again")
  let bytes ← (operationBytes decode request.operation).mapError fun e =>
    ("bad_request", "bytes_base64: " ++ e)
  let s ← (s.submit (.control conn.id request bytes)).mapError fun
    | .busy => ("pty_busy", "the PTY queue is full; nothing was written")
    | .closed => ("agent_exited", "the PTY writer stopped; nothing was written")
  .ok { s with conn := some { conn with structured := true } }

/-- A control operation of the current client; an answer only when it is refused. -/
def enqueue (s : State) (request : TerminalControlRequest) : State × Option HolderResponse :=
  match s.conn with
  | none => (s, none)
  | some conn =>
    match accepted decode s conn request with
    | .ok s => (s, none)
    | .error (code, message) => (s, some (failed request.requestId code message))

end

/-- `Acquire` and `Resize` once they are validated: the PTY first, then the frame, then the owner. -/
def resized (s : State) (connId : Nat) (request : TerminalControlRequest) (size : TerminalSize)
    (a : Answers) (lags : Bool) : State :=
  match a.resized with
  | .error message => s.push (failed request.requestId "resize_failed" message) lags
  | .ok () =>
    let s := { s with screen := s.screen.resize size }
    match a.framed with
    | .error e => s.endControl.push (failed request.requestId e.code e.message) lags
    | .ok () =>
      if a.fits then
        let owners := match request.operation with
          | .acquire attach _ => .acquired connId attach :: s.owners
          | _ => s.owners
        { s with control := some request.operation.attachId, owners }.push (.terminalControl
          ⟨request.requestId, request.generation, some request.operation.attachId, some s.screen⟩)
          lags
      else
        s.endControl.push (failed request.requestId "frame_too_large"
          "terminal frame exceeds 8 MiB; nothing was truncated") lags

/-- A control operation that the writer reached, up to the bytes it will write without the lock. -/
def execute (s : State) (connId : Nat) (request : TerminalControlRequest) (bytes : Option Bytes)
    (a : Answers) (lags : Bool) : State × Option Bytes :=
  match validate s connId request with
  | .error (code, message) =>
    if s.isCurrent connId then (s.push (failed request.requestId code message) lags, none)
    else (s, none)
  | .ok () =>
    match request.operation with
    | .acquire _ size | .resize _ size => (resized s connId request size a lags, none)
    -- the bytes were decoded before they were enqueued
    | .input _ _ | .daemonKey _ _ => (s, some (bytes.getD []))
    | .release _ =>
      (s.endControl.push (.terminalControl ⟨request.requestId, request.generation, none, none⟩)
        lags, none)

/-- The acknowledgement of an operation that wrote its bytes. -/
def acknowledgement (request : TerminalControlRequest) : TerminalControlData where
  requestId := request.requestId
  generation := request.generation
  attachId := match request.operation with
    | .daemonKey _ _ => none
    | operation => some operation.attachId
  frame := none

/-- A control operation after its write. -/
def written (s : State) (connId : Nat) (request : TerminalControlRequest)
    (result : Except String Unit) (lags : Bool) : State :=
  if s.isCurrent connId then
    match result with
    | .ok () => s.push (.terminalControl (acknowledgement request)) lags
    | .error e => s.endControl.push (failed request.requestId "pty_write_failed" e) lags
  else s

/-- Operator input without a controller, when it is requested. -/
def legacyInput (s : State) (bytes : Bytes) : State × Option HolderResponse :=
  if s.control.isSome then
    (s, some (.error "control_lost" "legacy input is refused while a terminal controller exists"))
  else if !s.agent then (s, some (.error "not_spawned" "no agent has been spawned"))
  else if s.exited then (s, some (.error "agent_exited" "the agent has exited"))
  else
    match s.conn with
    | none => (s, none)
    | some conn =>
      match s.submit (.legacy conn.id bytes) with
      | .ok s => (s, none)
      | .error .busy =>
        (s, some (.error "pty_busy" "the agent is not reading its input; nothing was written"))
      | .error .closed => (s, some (.error "agent_exited" "the agent's PTY is closed"))

/-- The same input when the writer reaches it. -/
def legacyOperation (s : State) (connId : Nat) (bytes : Bytes) (lags : Bool) :
    State × Option Bytes :=
  if !s.isCurrent connId then (s, none)
  else if s.control.isSome || !s.running then
    let reason := if s.exited then "agent_exited" else "control_lost"
    (s.push (.error reason "legacy input was invalidated; nothing was written") lags, none)
  else (s, some bytes)

end Agend.Holder
