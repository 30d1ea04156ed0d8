import Agend.Library.Trace

/-! The link to one holder and the terminal subscribers it feeds: the holder's output, the
connection's answers in order, the pending requests and the broadcast channel. Answers that touch
neither the pending requests nor the channel are left out. -/
namespace Agend.Terminal

open Library

/-- PTY chunks a terminal subscriber may fall behind before it is dropped. -/
def terminalChunks : Nat := 256

inductive HolderResponse where
  | screenSnapshot (screen : String)
  | ptyBytes (bytes : String)
  deriving DecidableEq

/-- The PTY bytes among some responses. -/
def chunks : List HolderResponse → List String
  | [] => []
  | .screenSnapshot _ :: rest => chunks rest
  | .ptyBytes bytes :: rest => bytes :: chunks rest

@[simp] theorem chunks_nil : chunks [] = [] := rfl

@[simp] theorem chunks_screen (screen : String) (rest : List HolderResponse) :
    chunks (.screenSnapshot screen :: rest) = chunks rest := rfl

@[simp] theorem chunks_bytes (bytes : String) (rest : List HolderResponse) :
    chunks (.ptyBytes bytes :: rest) = bytes :: chunks rest := rfl

@[simp] theorem chunks_append (xs ys : List HolderResponse) :
    chunks (xs ++ ys) = chunks xs ++ chunks ys := by
  induction xs with
  | nil => rfl
  | cons x xs ih => cases x <;> simp [ih]

/-- A connection after its greeting; `epoch` tells it apart from the others of this link. -/
structure Conn where
  epoch : Nat
  /-- The holder still sends on it. -/
  attached : Bool
  /-- The link writes requests to it and reads it to its end. -/
  published : Bool
  /-- `Snapshot` requests without an answer. -/
  requests : Nat
  /-- Sent by the holder and not read yet, in order. -/
  inbox : List HolderResponse
  deriving DecidableEq

/-- The next response is a chunk. -/
def Conn.chunkNext (c : Conn) : Bool :=
  match c.inbox with
  | .ptyBytes _ :: _ => true
  | _ => false

/-- A chunk as the channel carries it, with the connection it was read from. -/
structure Chunk where
  epoch : Nat
  bytes : String
  deriving DecidableEq

/-- A subscriber with its end of the channel. -/
structure Receiver where
  /-- The connection its screen was read from. -/
  epoch : Nat
  screen : String
  received : List Chunk
  /-- Sent and not received yet. -/
  queue : List Chunk
  /-- A chunk it had not received was overwritten. -/
  lagged : Bool
  /-- Told that its stream ended or lagged. -/
  told : Bool
  deriving DecidableEq

namespace Receiver

/-- `live.subscribe()`: what is sent from now on. -/
def subscribe (epoch : Nat) (screen : String) : Receiver :=
  { epoch, screen, received := [], queue := [], lagged := false, told := false }

/-- `live.send`, as this receiver sees it: the channel keeps the newest chunks. -/
def send (r : Receiver) (c : Chunk) : Receiver :=
  if r.queue.length < terminalChunks then { r with queue := r.queue ++ [c] }
  else { r with queue := r.queue.tail ++ [c], lagged := true }

/-- `recv`: `Lagged` first, then the chunks in order, then `Closed` once the sender is dropped. -/
def recv (r : Receiver) (closed : Bool) : Option Receiver :=
  if r.told then none
  else if r.lagged then some { r with told := true }
  else match r.queue with
    | c :: rest => some { r with received := r.received ++ [c], queue := rest }
    | [] => if closed then some { r with told := true } else none

end Receiver

structure World where
  /-- Every chunk the holder published, oldest first. -/
  output : List String
  /-- Connections made so far. -/
  epochs : Nat
  conn : Option Conn
  /-- The waiting requests; false once the caller dropped its end. -/
  pending : List Bool
  receivers : List Receiver
  /-- The link was closed, and with it the channel's sender. -/
  closed : Bool
  deriving DecidableEq

inductive Event where
  /-- The agent writes: the holder keeps the chunk and sends it on its connection. -/
  | output (bytes : String)
  /-- The holder answers the oldest `Snapshot`. -/
  | answer
  /-- The holder's side of the connection ends. -/
  | detach
  | terminalRequest
  | sendSnapshot
  /-- A caller drops its pending request. -/
  | abandon (k : Nat)
  /-- `read_until_closed` takes one response. -/
  | read
  /-- `read_until_closed` returns. -/
  | disconnected
  | connect
  /-- A response read, and dropped, before the connection is published. -/
  | skip
  | publish
  /-- The new connection is dropped before it is published. -/
  | refuse
  | recv (k : Nat)
  /-- A subscriber drops its receiver. -/
  | leave (k : Nat)
  | close
  deriving DecidableEq

section
variable (render : List String → String)

/-- What the holder sends on its connection, if it has one. -/
def Conn.sent (c : Conn) (response : HolderResponse) : Conn :=
  if c.attached then { c with inbox := c.inbox ++ [response] } else c

/-- `ScreenSnapshot`: every waiting request gets this screen and a receiver from here on. -/
def World.screenSnapshot (s : World) (c : Conn) (screen : String) : World :=
  { s with
    pending := []
    receivers := s.receivers ++
      (s.pending.filter id).map fun _ => Receiver.subscribe c.epoch screen }

/-- `PtyBytes`: sent to every receiver of the channel. -/
def World.ptyBytes (s : World) (c : Conn) (bytes : String) : World :=
  { s with receivers := s.receivers.map fun r => r.send ⟨c.epoch, bytes⟩ }

/-- One response of `read_until_closed`. -/
def World.handle (s : World) (c : Conn) : HolderResponse → World
  | .screenSnapshot screen => s.screenSnapshot c screen
  | .ptyBytes bytes => s.ptyBytes c bytes

def World.next (s : World) : Event → Option World
  | .output bytes =>
    some { s with
      output := s.output ++ [bytes]
      conn := s.conn.map fun c => c.sent (.ptyBytes bytes) }
  | .answer => do
    let c ← s.conn
    if c.attached && 0 < c.requests then
      let c' := { c with requests := c.requests - 1 }
      some { s with conn := some (c'.sent (.screenSnapshot (render s.output))) }
    else none
  | .detach => do
    let c ← s.conn
    some { s with conn := some { c with attached := false } }
  | .terminalRequest =>
    if s.closed then none else some { s with pending := s.pending ++ [true] }
  | .sendSnapshot => do
    let c ← s.conn
    if c.published then some { s with conn := some { c with requests := c.requests + 1 } }
    else none
  | .abandon k => some { s with pending := s.pending.set k false }
  | .read => do
    let c ← s.conn
    if c.published then
      match c.inbox with
      | response :: rest =>
        some ({ s with conn := some { c with inbox := rest } }.handle c response)
      | [] => none
    else none
  | .disconnected => do
    let c ← s.conn
    -- the subscribers that have their screen keep their receivers
    if c.published then some { s with conn := none, pending := [] } else none
  | .connect =>
    if s.closed || s.conn.isSome then none
    else
      -- the greeting's screen is read before the connection is returned
      some { s with
        epochs := s.epochs + 1
        conn := some
          { epoch := s.epochs, attached := true, published := false, requests := 0, inbox := [] } }
  | .skip => do
    let c ← s.conn
    if c.published then none
    else
      match c.inbox with
      | _ :: rest => some { s with conn := some { c with inbox := rest } }
      | [] => none
  | .publish => do
    let c ← s.conn
    if c.published then none else some { s with conn := some { c with published := true } }
  | .refuse => do
    let c ← s.conn
    if c.published then none else some { s with conn := none }
  | .recv k => do
    let r ← s.receivers[k]?
    let r' ← r.recv s.closed
    some { s with receivers := s.receivers.set k r' }
  | .leave k => some { s with receivers := s.receivers.eraseIdx k }
  | .close => some { s with conn := none, closed := true }

/-- The link, its holder and its subscribers, before the first connection. -/
def stream : Machine World Event Unit where
  init s := s = ⟨[], 0, none, [], [], false⟩
  step s e s' _ := s.next render e = some s'

/-- Events from the start on, as far as they fit. -/
def streamed (events : List Event) : List (Transition World Event Unit) × World :=
  Machine.play (fun s e => (s.next render e).map fun s' => (s', ())) []
    ⟨[], 0, none, [], [], false⟩ events

theorem run_streamed (events : List Event) :
    (stream render).Run (streamed render events).1 (streamed render events).2 :=
  .play (fun _ _ _ _ => Machine.step_of_silent) (.start rfl)

end

end Agend.Terminal
