import Agend.Holder.Control

/-! The holder as a machine: the accept and connection threads, the writer, the PTY reader, the
agent's waiter and the serve loop, each holding the state's lock for one event. Launch bindings are
left out: they are recorded with a spawn and read back, and touch nothing else. -/
namespace Agend.Holder

open Library

inductive HolderRequest where
  | hello
  | spawn (instanceId : String) (spawned : Except String Unit)
  | resize (size : TerminalSize) (resized : Except String Unit)
  | sendControlKey (key : ControlKey)
  | terminalControl (request : TerminalControlRequest)
  | operatorTerminalInput (bytesBase64 : String)
  | getTerminalFrame (requestId : String) (sampled : Except FrameError Unit)
  | snapshot
  | shutdown
  | unknown
  /-- A line that does not parse. -/
  | malformed (message : String)
  deriving DecidableEq

inductive Event where
  /-- A client completes `hello`; its greeting may fall behind at any of its three lines. -/
  | accept (minor : Nat) (lags₁ lags₂ lags₃ : Bool)
  /-- The thread of a connection reads a request. -/
  | request (id : Nat) (request : HolderRequest) (lags : Bool)
  /-- It reads a line that is too long, and leaves its loop after this. -/
  | tooLong (id : Nat) (message : String) (lags : Bool)
  /-- It leaves its loop. -/
  | ended (id : Nat)
  /-- The writer takes the next job and runs it up to its write. -/
  | take (a : Answers) (lags : Bool)
  /-- Some bytes of the current write reach the PTY, without the lock. -/
  | write (n : Nat)
  /-- The current write returns. -/
  | wrote (result : Except String Unit) (lags : Bool)
  /-- The PTY reader reads some output, whose query replies are queued if there is room. -/
  | output (bytes : Bytes) (replies : List Bytes) (lags : Bool)
  /-- The agent ended. -/
  | exit (lags : Bool)
  /-- The serve loop stops the agent. -/
  | halt (why : Stop)

/-- Queues bytes for the PTY if there is room. -/
def State.trySend (s : State) (bytes : Bytes) : State :=
  match s.submit (.bytes bytes) with
  | .ok s => s
  | .error _ => s

/-- A control key, which has no owner to check. -/
def writePty (s : State) (bytes : Bytes) : State × Option HolderResponse :=
  if !s.agent then (s, some (.error "not_spawned" "no agent has been spawned"))
  else if s.exited then (s, some (.error "agent_exited" "the agent has exited"))
  else
    match s.submit (.bytes bytes) with
    | .ok s => (s, none)
    | .error .busy =>
      (s, some (.error "pty_busy" "the agent is not reading its input; nothing was written"))
    | .error .closed => (s, some (.error "agent_exited" "the agent's PTY is closed"))

section
variable (instanceId : String) (decode : String → Except String Bytes)

def spawnAgent (s : State) (id : String) (spawned : Except String Unit) :
    State × Option HolderResponse :=
  if s.stop.isSome then (s, some (.error "stopping" "holder is stopping"))
  else if s.spawnedOnce then
    (s, some (.error "already_spawned"
      "this holder already ran its agent; it never starts another"))
  else if id ≠ instanceId then
    (s, some (.error "instance_mismatch"
      ("this holder is for " ++ instanceId ++ ", not " ++ id)))
  else
    match spawned with
    | .error message => (s, some (.error "spawn_failed" message))
    | .ok () => ({ s with spawnedOnce := true, agent := true, writer := true }, some .spawned)

/-- `Resize` of a client that does not control the terminal. -/
def legacyResize (s : State) (size : TerminalSize) (resized : Except String Unit) :
    State × Option HolderResponse :=
  if !size.isValid then
    (s, some (.error "invalid_size"
      ("rows and columns must be 1 to " ++ toString maxScreenSide)))
  else if s.control.isSome then
    (s, some (.error "control_lost"
      "legacy resize is refused while a terminal controller exists"))
  else
    match s.agent, resized with
    | true, .error e => (s, some (.error "resize_failed" e))
    | _, _ => ({ s with screen := s.screen.resize size }, none)

def getTerminalFrame (s : State) (requestId : String) (sampled : Except FrameError Unit) :
    State × Option HolderResponse :=
  match s.conn with
  | none =>
    (s, some (failed requestId "not_supported" "structured frames require holder protocol 1.1"))
  | some conn =>
    if conn.minor < 1 then
      (s, some (failed requestId "not_supported"
        "structured frames require holder protocol 1.1"))
    else
      ({ s with conn := some { conn with structured := true } },
        some (match sampled with
          | .ok () => .terminalFrame requestId
          | .error e => failed requestId e.code e.message))

/-- One request of the current client, and its answer, if any. -/
def handle (s : State) (request : HolderRequest) : State × Option HolderResponse :=
  if s.stop.isSome then (s, some (.error "stopping" "holder is stopping"))
  else
    match request with
    | .hello => (s, some (.error "unexpected_hello" "already said hello"))
    | .spawn id spawned => spawnAgent instanceId s id spawned
    | .resize size resized => legacyResize s size resized
    | .sendControlKey key =>
      match controlKeyBytes key with
      | some bytes => writePty s bytes
      | none =>
        (s, some (.error "unknown_control_key"
          "not a control key this holder knows; nothing was written"))
    | .terminalControl request => enqueue decode s request
    | .operatorTerminalInput bytesBase64 =>
      match decode bytesBase64 with
      | .ok bytes => legacyInput s bytes
      | .error e => (s, some (.error "bad_request" ("bytes_base64: " ++ e)))
    | .getTerminalFrame requestId sampled => getTerminalFrame s requestId sampled
    | .snapshot => (s, some .screenSnapshot)
    | .shutdown => ({ s with stop := some .shutdown }, none)
    | .unknown =>
      (s, some (.error "unsupported_request" "this holder does not know that request"))
    | .malformed message =>
      (s, some (.error "bad_request" ("cannot parse request: " ++ message)))

/-- A request on the connection `id`, current or not. -/
def State.serve (s : State) (id : Nat) (request : HolderRequest) (lags : Bool) : State :=
  if s.isCurrent id then
    match handle instanceId decode s request with
    | (s, some response) => s.push response lags
    | (s, none) => s
  else if s.latestConn > id then s
  else
    -- dropped for lagging: only a `Shutdown` is still honoured
    match request with
    | .shutdown => (handle instanceId decode s .shutdown).1
    | _ => s

/-- A new client replaces the one before it. -/
def State.accept (s : State) (minor : Nat) (lags₁ lags₂ lags₃ : Bool) : State :=
  let s := { s with
    nextConn := s.nextConn + 1
    latestConn := s.nextConn
    conn := some { id := s.nextConn, minor, structured := false } }
  let greeted := (s.endControl.push (.hello minor) lags₁).push .screenSnapshot lags₂
  if greeted.exited then greeted.push .exited lags₃ else greeted

/-- The thread of the connection is done. -/
def State.hangUp (s : State) (id : Nat) : State :=
  if s.isCurrent id then { s with conn := none }.endControl else s

/-- The writer runs the next job up to its write. -/
def State.run (s : State) (job : Job) (a : Answers) (lags : Bool) : State × Option Bytes :=
  match job with
  | .bytes bytes => (s, some bytes)
  | .control conn request bytes => execute s conn request bytes a lags
  | .legacy conn bytes => legacyOperation s conn bytes lags

/-- The writer is back from a write. -/
def State.wrote (s : State) (job : Job) (result : Except String Unit) (lags : Bool) : State :=
  match job, result with
  | .bytes _, .ok () => s
  | .bytes _, .error _ => { s with writer := false }
  | .control conn request _, result => written s conn request result lags
  | .legacy _ _, .ok () => s
  | .legacy conn _, .error e =>
    if s.isCurrent conn then s.push (.error "pty_write_failed" e) lags else s

/-- The writer takes the next job. -/
def State.take (s : State) (a : Answers) (lags : Bool) : Option State :=
  match s.writer, s.current, s.queue with
  | true, none, job :: rest =>
    let ran := { s with queue := rest }.run job a lags
    some { ran.1 with current := ran.2.map fun left => ⟨job, left⟩ }
  | _, _, _ => none

/-- A line over the limit: the client is told, if it is the current one. -/
def State.tooLong (s : State) (id : Nat) (message : String) (lags : Bool) : State :=
  if s.isCurrent id then s.push (.error "request_too_large" message) lags else s

/-- The serve loop leaves for a reason, and takes the agent. -/
def State.halt (s : State) (why : Stop) : Option State :=
  match s.stop with
  | some _ => some { s with agent := false }
  | none =>
    match why with
    | .homeDeleted => some { s with stop := some why, agent := false }
    | .idle =>
      if s.running || s.conn.isSome then none
      else some { s with stop := some why, agent := false }
    -- only a request stops the holder so
    | .shutdown => none

def State.next (s : State) : Event → Option State
  | .accept minor lags₁ lags₂ lags₃ =>
    if s.stop.isSome then none else some (s.accept minor lags₁ lags₂ lags₃)
  | .request id request lags =>
    if id < s.nextConn then some (s.serve instanceId decode id request lags) else none
  | .tooLong id message lags => some (s.tooLong id message lags)
  | .ended id => some (s.hangUp id)
  | .take a lags => s.take a lags
  | .write n => do
    let w ← s.current
    if n ≤ w.left.length then some { s with current := some { w with left := w.left.drop n } }
    else none
  | .wrote result lags => do
    let w ← s.current
    -- a write that succeeds wrote everything
    if result = .ok () ∧ w.left ≠ [] then none
    else some ({ s with current := none }.wrote w.job result lags)
  | .output bytes replies lags =>
    some ((replies.foldl State.trySend { s with screen := s.screen.process bytes }).push
      (.ptyBytes bytes) lags)
  | .exit lags =>
    if s.spawnedOnce && !s.exited then some { s.push .exited lags with exited := true } else none
  | .halt why => s.halt why

/-- The holder before its first client. -/
def State.new (generation : String) : State where
  control := none
  screen := ⟨generation, 0, ⟨50, 200⟩⟩
  conn := none
  nextConn := 1
  latestConn := 0
  agent := false
  spawnedOnce := false
  exited := false
  stop := none
  writer := false
  queue := []
  current := none
  owners := []
  sent := []

def holder : Machine State Event Unit where
  init s := ∃ generation, s = .new generation
  step s e s' _ := s.next instanceId decode e = some s'

/-- Events from the start on, as far as they fit. -/
def held (generation : String) (events : List Event) : List (Transition State Event Unit) × State :=
  Machine.play (fun s e => (s.next instanceId decode e).map fun s' => (s', ())) []
    (.new generation) events

theorem run_held (generation : String) (events : List Event) :
    (holder instanceId decode).Run (held instanceId decode generation events).1
      (held instanceId decode generation events).2 :=
  .play (fun _ _ _ _ => Machine.step_of_silent) (.start ⟨generation, rfl⟩)

end

end Agend.Holder
