import Mathlib.Algebra.Group.Nat.Defs
import Agend.Library.Lines
import Agend.Library.Trace
import Agend.Connection.Retry

/-! A client and the daemon: requests written as lines, replies and events read as lines, over
connections that end at any point. -/
namespace Agend.Connection

open Library

abbrev newline : UInt8 := 10

/-- The longest line that the daemon reads. -/
def maxLineBytes : Nat := 8 * 2 ^ 20

/-- How requests are written and read; the encoding is the one of the JSON library. -/
structure Wire (ρ : Type) where
  requestId : ρ → String
  encode : ρ → List UInt8
  decode : List UInt8 → Option ρ

/-- A piece of a line, as a write that fails may leave it. -/
def Wire.Piece {ρ : Type} (w : Wire ρ) (p : List UInt8) : Prop := ∃ r, p <+: w.encode r

/-- What is promised of the encoding: it has no newline, it is read back, and it is not read
behind the pieces of other lines. -/
structure Wire.Lawful {ρ : Type} (w : Wire ρ) : Prop where
  oneLine : ∀ r, newline ∉ w.encode r
  readBack : ∀ r, w.decode (w.encode r) = some r
  torn : ∀ (pieces : List (List UInt8)) r, (∀ p ∈ pieces, w.Piece p) → pieces.flatten ≠ [] →
    w.decode (pieces.flatten ++ w.encode r) = none

/-- A line of the daemon, as far as the client tells them apart. -/
inductive Response (ε : Type)
  | event (data : ε)
  | commandResult (requestId result : String)
  | fleet (requestId fleet : String)
  | error (requestId : Option String) (code message : String)
  | other
deriving DecidableEq

def Response.requestId {ε : Type} : Response ε → Option String
  | .commandResult id _ | .fleet id _ => some id
  | .error id _ _ => id
  | _ => none

/-- A line on its way to the client; `none` is one that lost its beginning or its end. The request
that it answers is for the proofs alone. -/
structure Line (ρ ε : Type) where
  response : Option (Response ε)
  answers : Option ρ
deriving DecidableEq

/-- One connection, seen from both ends. -/
structure Link (ρ ε : Type) where
  /-- Taken by the socket and not read by the daemon. -/
  up : List UInt8
  /-- What the daemon has read of a line. -/
  partial_ : List UInt8
  serving : Bool
  executed : List ρ
  down : List (Line ρ ε)
  /-- The requests whose whole line was written here. -/
  written : List ρ

def Link.fresh {ρ ε : Type} : Link ρ ε := ⟨[], [], true, [], [], []⟩

inductive Outcome (ε : Type)
  | reply (response : Response ε)
  | failed (e : ClientError)
deriving DecidableEq

/-- What a call returns, with the line that it was read off. -/
structure Returned (ρ ε : Type) where
  request : ρ
  outcome : Outcome ε
  line : Option (Line ρ ε)
deriving DecidableEq

inductive ClientStage (ρ : Type)
  | idle
  | writing (r : ρ) (redo : Redo)
  | reconnecting (r : ρ) (redo : Redo)
  | waiting (r : ρ) (redo : Redo)
  | nextEvent
deriving DecidableEq

structure World (ρ ε : Type) where
  stage : ClientStage ρ
  /-- The connection that the client uses, and the ones that it has left. -/
  link : Link ρ ε
  left : List (Link ρ ε)
  /-- Events that were read while waiting for a reply. -/
  events : List ε
  called : List (ρ × Redo)
  linesRead : List (Line ρ ε)
  eventsReturned : List ε

inductive DaemonEvent (ρ ε : Type)
  /-- The next piece of the socket's buffer. -/
  | fill (n : Nat)
  | answer (r : ρ) (response : Response ε)
  | send (response : Response ε)
  | close

inductive Input (ρ ε : Type)
  | call (r : ρ) (redo : Redo)
  | writeAll
  | writeFails (n : Nat)
  | reopened
  | notReopened (e : ClientError)
  | read
  | timedOut (cut : Bool)
  | ended (cut : Bool)
  | nextEvent
  /-- On the client's connection, or on one that it has left. -/
  | daemon (left : Option Nat) (e : DaemonEvent ρ ε)

section

variable {ρ ε : Type} [DecidableEq ρ] (w : Wire ρ)

def line (r : ρ) : List UInt8 := w.encode r ++ [newline]

def isBlank (l : List UInt8) : Bool := l.all fun b => b ∈ [9, 10, 12, 13, 32]

namespace Link

def push (l : Link ρ ε) (response : Response ε) (answers : Option ρ) : Link ρ ε :=
  { l with down := l.down ++ [⟨some response, answers⟩] }

/-- A whole line that the daemon has read. -/
def handle (l : Link ρ ε) (text : List UInt8) : Link ρ ε :=
  if isBlank text then l
  else match w.decode text with
    | none => l.push (.error none "invalid_request" "invalid JSON line") none
    | some r => { l with executed := l.executed ++ [r] }

/-- One round of `read_line`, with the `n` bytes that are available. -/
def fill (l : Link ρ ε) (n : Nat) : Link ρ ε :=
  let available := l.up.take n
  match available.findIdx? (· = newline) with
  | some end_ =>
    if l.partial_.length + end_ > maxLineBytes then
      { l.push (.error none "invalid_request" "a protocol line is too long") none with
        serving := false }
    else
      { l with up := l.up.drop (end_ + 1), partial_ := [] }.handle w
        (l.partial_ ++ available.take end_)
  | none =>
    if l.partial_.length + available.length > maxLineBytes then
      { l.push (.error none "invalid_request" "a protocol line is too long") none with
        serving := false }
    else { l with up := l.up.drop available.length, partial_ := l.partial_ ++ available }

/-- A line without a request id is an event, or an error of this line or of the connection. -/
def step (l : Link ρ ε) : DaemonEvent ρ ε → Option (Link ρ ε)
  | .fill n => if l.serving then some (l.fill w n) else none
  | .answer r response =>
    if r ∈ l.executed ∧ response.requestId = some (w.requestId r) then
      some (l.push response (some r))
    else none
  | .send response => if response.requestId = none then some (l.push response none) else none
  | .close => some { l with serving := false }

end Link

namespace World

def enter (s : World ρ ε) (stage : ClientStage ρ) : World ρ ε := { s with stage := stage }

def ids (s : World ρ ε) : List String := s.called.map (w.requestId ·.1)

/-- `wait_reply` with one line; the client does not look at what the line answers. -/
def reply (s : World ρ ε) (r : ρ) (l : Line ρ ε) : World ρ ε × Option (Returned ρ ε) :=
  match l.response with
  | none => (s.enter .idle, some ⟨r, .failed (.disconnected "not a client protocol line"), none⟩)
  | some (.event data) =>
    ({ s with events := s.events ++ [data] }, none)
  | some (.error id code message) =>
    if id = none ∨ id = some (w.requestId r) then
      (s.enter .idle, some ⟨r, .failed (.daemon code message), some l⟩)
    else (s, none)
  | some .other => (s, none)
  | some response =>
    if response.requestId = some (w.requestId r) then
      (s.enter .idle, some ⟨r, .reply response, some l⟩)
    else (s, none)

/-- `next_event` with one line. -/
def readEvent (s : World ρ ε) (l : Line ρ ε) : World ρ ε :=
  match l.response with
  | some (.event data) =>
    { s with stage := .idle, eventsReturned := s.eventsReturned ++ [data] }
  | none | some (.error _ _ _) => s.enter .idle
  | some _ => s

def daemon (s : World ρ ε) (left : Option Nat) (e : DaemonEvent ρ ε) : Option (World ρ ε) :=
  match left with
  | none => (s.link.step w e).map fun l => { s with link := l }
  | some k =>
    match s.left[k]? with
    | none => none
    | some l => (l.step w e).map fun l => { s with left := s.left.set k l }

def step (s : World ρ ε) : Input ρ ε → Option (World ρ ε × Option (Returned ρ ε))
  | .call r redo =>
    if s.stage = .idle ∧ w.requestId r ∉ s.ids w then
      some ({ s with stage := .writing r redo, called := (r, redo) :: s.called }, none)
    else none
  | .writeAll =>
    match s.stage with
    | .writing r redo =>
      some ({ s with
        stage := .waiting r redo
        link := { s.link with
          up := s.link.up ++ line w r
          written := s.link.written ++ [r] } }, none)
    | _ => none
  | .writeFails n =>
    match s.stage with
    | .writing r redo =>
      if n < (line w r).length then
        some ({ s with
          stage := .reconnecting r redo
          link := { s.link with up := s.link.up ++ (line w r).take n } }, none)
      else none
    | _ => none
  | .reopened =>
    match s.stage with
    | .reconnecting r redo =>
      some ({ s with stage := .writing r redo, left := s.link :: s.left, link := .fresh }, none)
    | _ => none
  -- the retry loop fails with anything but `restarted`; an error of the daemon there is about the
  -- new connection
  | .notReopened e =>
    match s.stage, e with
    | .reconnecting _ _, .restarted => none
    | .reconnecting r _, .daemon code message =>
      some (s.enter .idle, some ⟨r, .failed e, some ⟨some (.error none code message), none⟩⟩)
    | .reconnecting r _, _ => some (s.enter .idle, some ⟨r, .failed e, none⟩)
    | _, _ => none
  | .read =>
    match s.link.down with
    | [] => none
    | l :: down =>
      let s' := { s with
        link := { s.link with down := down }
        linesRead := s.linesRead ++ [l] }
      match s.stage with
      | .waiting r _ => some (s'.reply w r l)
      | .nextEvent => some (s'.readEvent l, none)
      | _ => none
  -- what was read of a line that is not complete is lost
  | .timedOut cut =>
    match s.stage with
    | .waiting r _ =>
      let link := match cut, s.link.down with
        | true, l :: down => { s.link with down := { l with response := none } :: down }
        | _, _ => s.link
      some ({ s with stage := .idle, link := link },
        some ⟨r, .failed (.disconnected "no reply"), none⟩)
    | _ => none
  -- a line that the end of the connection cuts is no line of the protocol
  | .ended cut =>
    match s.stage with
    | .waiting r redo =>
      if cut then
        some (s.enter .idle, some ⟨r, .failed (.disconnected "not a client protocol line"), none⟩)
      else if redo = .safe then some (s.enter (.reconnecting r redo), none)
      else some (s.enter .idle, some ⟨r, .failed .restarted, none⟩)
    | .nextEvent => some (s.enter .idle, none)
    | _ => none
  | .nextEvent =>
    match s.stage with
    | .idle =>
      match s.events with
      | [] => some (s.enter .nextEvent, none)
      | data :: events =>
        some ({ s with events := events, eventsReturned := s.eventsReturned ++ [data] }, none)
    | _ => none
  | .daemon left e => (s.daemon w left e).map (·, none)

variable {w} in
theorem step_call {s s' : World ρ ε} {r : ρ} {redo : Redo} {o : Option (Returned ρ ε)}
    (hs : s.step w (.call r redo) = some (s', o)) :
    (s.stage = .idle ∧ w.requestId r ∉ s.ids w) ∧ o = none ∧
      s' = { s with stage := .writing r redo, called := (r, redo) :: s.called } := by
  simp only [step] at hs
  split at hs
  case isTrue hcall =>
    cases hs
    exact ⟨hcall, rfl, rfl⟩
  case isFalse => cases hs

end World

def start : World ρ ε := ⟨.idle, .fresh, [], [], [], [], []⟩

def exchange : Machine (World ρ ε) (Input ρ ε) (Option (Returned ρ ε)) where
  init s := s = start
  step s e s' o := s.step w e = some (s', o)

end

end Agend.Connection
