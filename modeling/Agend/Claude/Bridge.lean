import Mathlib.Algebra.Group.Nat.Defs
import Agend.Library.Json
import Agend.Library.Trace

/-! The bridge to a Claude session: hooks that say what it does, polls that messages are handed out
to, and the screen that is read in between. -/
namespace Agend.Claude

open Library

inductive HookEvent where
  | sessionStart
  | userPromptSubmit
  | preToolUse
  | postToolUse
  | stop
  | sessionEnd
  deriving DecidableEq

def HookEvent.name : HookEvent → String
  | .sessionStart => "SessionStart"
  | .userPromptSubmit => "UserPromptSubmit"
  | .preToolUse => "PreToolUse"
  | .postToolUse => "PostToolUse"
  | .stop => "Stop"
  | .sessionEnd => "SessionEnd"

/-- Whether the event says that a turn or the session begins or ends. -/
def HookEvent.routes : HookEvent → Bool
  | .sessionStart | .userPromptSubmit | .sessionEnd | .stop => true
  | .preToolUse | .postToolUse => false

/-- A native hook. Its payload was read before it is stored. -/
structure Hook where
  id : String
  session : String
  event : HookEvent
  payload : Json
  occurredAtUnixMs : Nat
  replayed : Bool
  deriving DecidableEq

namespace Hook

def stopHookActive (h : Hook) : Option Bool :=
  match h.payload.get? "stop_hook_active" with
  | some (.bool b) => some b
  | _ => none

/-- The payload is of this hook. -/
def matchesPayload (h : Hook) : Bool :=
  (h.payload.get? "session_id").bind Json.asStr = some h.session &&
    (h.payload.get? "hook_event_name").bind Json.asStr = some h.event.name

/-- Whether the hook arrived within five seconds of its time. -/
def onTime (h : Hook) (arrived : Nat) : Bool :=
  max arrived h.occurredAtUnixMs - min arrived h.occurredAtUnixMs ≤ 5000

end Hook

/-- What is cached of the session. Instants are milliseconds, connections are numbered. -/
structure State where
  session : String
  idle : Option Nat
  lastRouteHook : Nat
  revision : Nat
  busy : Bool
  reportedBusy : Option Bool
  initial : Bool
  readyGeneration : Option String
  idleConnection : Option Nat
  routingConnection : Option Nat
  deriving DecidableEq

namespace State

def new (session : String) : State :=
  ⟨session, none, 0, 0, false, none, false, none, none, none⟩

/-- The cached state, afresh for another session. -/
def of (session : String) : Option State → State
  | some st => if st.session = session then st else new session
  | none => new session

def bump (st : State) : State := { st with revision := (st.revision + 1) % 2 ^ 64 }

/-- What a late or replayed hook leaves. -/
def revoke (st : State) (occurred : Nat) : State :=
  { st with
    idle := none
    routingConnection := none
    initial := false
    readyGeneration := none
    busy := false
    reportedBusy := none
    lastRouteHook := occurred }.bump

/-- The report of the state to the store, which may fail. -/
def report (st : State) (busy stored : Bool) : State × Bool :=
  if st.reportedBusy = some busy then (st, true)
  else if stored then ({ st with reportedBusy := some busy }, true)
  else (st, false)

/-- Idle since now, on the connection that the turn ran on if it is current. -/
def rest (st : State) (now : Nat) (current : Nat → Bool) : State :=
  { st with
    busy := false
    idle := some now
    idleConnection := st.routingConnection.filter current }

end State

inductive ClaudeRoute where
  | channel
  | stop
  deriving DecidableEq

/-- What a poll, or a stop, saw under the lock before the screen was read. -/
structure Routing where
  route : ClaudeRoute
  revision : Nat
  initial : Bool
  readyGeneration : Option String
  deriving DecidableEq

/-- Where a call is between its sections. -/
inductive Pending where
  /-- The hook is stored. -/
  | hook (hook : Hook) (inserted : Bool) (arrived : Nat)
  | routing (r : Routing)
  /-- The startup screen is not ready. -/
  | unready (revision : Nat)
  /-- The screen was read, and nothing stands on it. -/
  | clear (r : Routing)
  | interrupting (revision : Nat)
  | interruptClear (revision : Nat)
  /-- The messages are reserved and the key is sent. -/
  | keyed (revision : Nat) (pushes : List String)
  /-- The startup observer reads the screen. -/
  | observing (revision : Nat)
  deriving DecidableEq

/-- The bridge of one instance and its calls. -/
structure Bridge where
  stored : List Hook
  state : Option State
  calls : Nat → Option Pending
  clock : Nat

/-- A section under the lock, or a step of a call outside it. `serving` says that the store
answered with a running push instance of the session. -/
inductive Section where
  | publish (call : Nat) (hook : Hook)
  /-- Old hooks are pruned from the store. -/
  | prune (ids : List String)
  | intake (call : Nat) (serving : Bool) (connection : Option Nat) (current : Nat → Bool)
      (stored : Bool)
  | attach (serving : Bool)
  | poll (call : Nat) (serving : Bool) (session : String)
  /-- The frame is the generation of one that shows the ready prompt; the screen is clear when it
  was read in time and no rule knows it. -/
  | look (call : Nat) (frame : Option String) (clear : Bool)
  | unready (call : Nat)
  | reserve (call : Nat) (pushes : Except String (List String)) (stored : Bool)
  | interruptLook (call : Nat) (clear : Bool)
  | interruptReserve (call : Nat) (pushes : Except String (List String))
  | keyed (call : Nat) (written : Bool)
  | observe (call : Nat)
  | observed (call : Nat) (ready : Option String) (connection : Option Nat) (current : Nat → Bool)
  /-- The task of a call is dropped. -/
  | cancel (call : Nat)

/-- Nothing yet, an error, or the messages that the call returns. -/
inductive Reply where
  | none
  | failed (text : String)
  | messages (pushes : List String)
  deriving DecidableEq

namespace Bridge

variable (session : String) (b : Bridge)

def set (call : Nat) (p : Option Pending) : Bridge :=
  { b with calls := Function.update b.calls call p }

/-- The append of a hook to the history: its id may come again with the same content. -/
def append (hook : Hook) : Except String (Bridge × Bool) :=
  match b.stored.find? fun old => old.id = hook.id with
  | some old =>
    if { hook with replayed := old.replayed } = old then .ok (b, false)
    else .error "driver event: event id already has different content"
  | none => .ok ({ b with stored := hook :: b.stored }, true)

def publish (call : Nat) (hook : Hook) (now : Nat) : Bridge × Reply :=
  if hook.matchesPayload = false then (b, .failed "hook payload identity mismatch")
  else
    match b.append hook with
    | .error text => (b, .failed text)
    | .ok (b, inserted) => (b.set call (some (.hook hook inserted now)), .none)

/-- A hook that is not fresh only takes away. -/
def stale (hook : Hook) (inserted : Bool) : Bridge :=
  match b.state with
  | some st =>
    if inserted ∧ hook.event.routes ∧ st.session = hook.session ∧
        st.lastRouteHook ≤ hook.occurredAtUnixMs then
      { b with state := some (st.revoke hook.occurredAtUnixMs) }
    else b
  | none => b

/-- What a fresh hook leaves, whether its report was stored, and whether it goes on to a
reservation. -/
def route (st : State) (hook : Hook) (connection : Option Nat) (current : Nat → Bool)
    (stored : Bool) (now : Nat) : State × Bool × Bool :=
  let st := if hook.event.routes then { st with lastRouteHook := hook.occurredAtUnixMs }.bump
    else st
  match hook.event with
  | .userPromptSubmit =>
    let st := { st with
      routingConnection := connection
      initial := false
      idle := none
      busy := true }
    ((st.report true stored).1, (st.report true stored).2, false)
  | .preToolUse | .postToolUse =>
    ({ st with
      idleConnection := none
      routingConnection := connection }.bump, true, false)
  | .sessionEnd =>
    ({ st with
      routingConnection := none
      initial := false
      idle := none
      busy := false
      reportedBusy := none }, true, false)
  | .sessionStart =>
    ({ st with
      routingConnection := connection
      busy := false
      initial := true
      idle := none
      readyGeneration := none }, true, false)
  | .stop =>
    let st := { st with initial := false }
    match hook.stopHookActive with
    | some true => (st.rest now current, true, false)
    | some false => (st.rest now current, true, true)
    | none =>
      let st := { st with
        idle := none
        busy := true }
      ((st.report true stored).1, (st.report true stored).2, false)

def intake (call : Nat) (serving : Bool) (connection : Option Nat) (current : Nat → Bool)
    (stored : Bool) (now : Nat) : Option (Bridge × Reply) :=
  match b.calls call with
  | some (.hook hook inserted arrived) =>
    let b := b.set call none
    if hook.replayed ∨ inserted = false ∨ hook.onTime arrived = false then
      some (b.stale hook inserted, .messages [])
    else if serving = false then some (b, .failed "instance is not running Claude push")
    else
      let st := State.of session b.state
      let b := { b with state := some st }
      if hook.session ≠ session then some (b, .messages [])
      else if hook.event.routes ∧ hook.occurredAtUnixMs < st.lastRouteHook then
        some (b, .messages [])
      else
        let routed := route st hook connection current stored now
        let b := { b with state := some routed.1 }
        if routed.2.1 = false then some (b, .failed "driver event")
        else if routed.2.2 then
          some (b.set call (some (.routing ⟨.stop, routed.1.revision, routed.1.initial,
            routed.1.readyGeneration⟩)), .none)
        else some (b, .messages [])
  | _ => none

def attach (serving : Bool) : Bridge × Reply :=
  if serving then ({ b with state := some (State.of session b.state) }, .messages [])
  else (b, .failed "instance is not running Claude push")

def poll (call : Nat) (serving : Bool) (channel : String) (now : Nat) : Bridge × Reply :=
  if serving = false then (b, .failed "instance is not running Claude push")
  else
    let st := State.of session b.state
    let b := { b with state := some st }
    if channel ≠ session then (b, .failed "channel belongs to a different session")
    else if st.busy then (b.set call (some (.interrupting st.revision)), .none)
    else if st.idle.all fun at_ => now - at_ < 5000 then (b, .messages [])
    else
      (b.set call (some (.routing ⟨.channel, st.revision, st.initial, st.readyGeneration⟩)), .none)

def look (call : Nat) (frame : Option String) (clear : Bool) : Option (Bridge × Reply) :=
  match b.calls call with
  | some (.routing r) =>
    if r.initial ∧ (frame = none ∨ r.readyGeneration ≠ frame) then
      some (b.set call (some (.unready r.revision)), .none)
    else if clear then some (b.set call (some (.clear r)), .none)
    else some (b.set call none, .messages [])
  | _ => none

def unready (call : Nat) : Option (Bridge × Reply) :=
  match b.calls call with
  | some (.unready revision) =>
    let b := b.set call none
    match b.state with
    | some st =>
      if st.revision = revision then
        some ({ b with state := some { st with
          idle := none
          readyGeneration := none } }, .messages [])
      else some (b, .messages [])
    | none => some (b, .messages [])
  | _ => none

/-- Whether the state is still the one that the call saw, and idle for long enough. -/
def still (st : State) (r : Routing) (now : Nat) : Bool :=
  st.session = session && st.revision = r.revision && st.idle.isSome &&
    !(r.route = .channel && st.idle.any fun at_ => now - at_ < 5000)

/-- The state after a reservation, and whether its report was stored. -/
def reserved (st : State) (r : Routing) (pushes : List String) (stored : Bool) : State × Bool :=
  let st := { st with initial := false }
  if pushes ≠ [] then
    { st with
      idle := none
      busy := true }.bump.report true stored
  else if r.route = .channel then st.report false stored
  else (st, true)

def reserve (call : Nat) (pushes : Except String (List String)) (stored : Bool) (now : Nat) :
    Option (Bridge × Reply) :=
  match b.calls call with
  | some (.clear r) =>
    let b := b.set call none
    match b.state with
    | some st =>
      if still session st r now then
        match pushes with
        | .error text => some (b, .failed text)
        | .ok pushes =>
          let after := reserved st r pushes stored
          some ({ b with state := some after.1 },
            if after.2 then .messages pushes else .failed "driver event")
      else some (b, .messages [])
    | none => some (b, .messages [])
  | _ => none

def interruptLook (call : Nat) (clear : Bool) : Option (Bridge × Reply) :=
  match b.calls call with
  | some (.interrupting revision) =>
    if clear then some (b.set call (some (.interruptClear revision)), .none)
    else some (b.set call none, .messages [])
  | _ => none

def interruptReserve (call : Nat) (pushes : Except String (List String)) :
    Option (Bridge × Reply) :=
  match b.calls call with
  | some (.interruptClear revision) =>
    let b := b.set call none
    match b.state with
    | some st =>
      if st.session = session ∧ st.revision = revision ∧ st.busy then
        match pushes with
        | .error text => some (b, .failed text)
        | .ok [] => some (b, .messages [])
        | .ok pushes =>
          some ({ b with state := some st.bump }.set call
            (some (.keyed st.bump.revision pushes)), .none)
      else some (b, .messages [])
    | none => some (b, .messages [])
  | _ => none

def keyed (call : Nat) (written : Bool) : Option (Bridge × Reply) :=
  match b.calls call with
  | some (.keyed revision pushes) =>
    if written ∧ b.state.any fun st => st.session = session && st.revision = revision then
      some (b.set call none, .messages pushes)
    else some (b.set call none, .messages [])
  | _ => none

def observe (call : Nat) : Bridge × Reply :=
  match b.state with
  | some st =>
    if st.session = session ∧ st.initial ∧ st.busy = false then
      (b.set call (some (.observing st.revision)), .none)
    else (b, .none)
  | none => (b, .none)

/-- The observer found the ready prompt, or something else. -/
def observed (call : Nat) (ready : Option String) (connection : Option Nat)
    (current : Nat → Bool) (now : Nat) : Option (Bridge × Reply) :=
  match b.calls call with
  | some (.observing revision) =>
    let b := b.set call none
    match b.state with
    | some st =>
      if st.session = session ∧ st.revision = revision ∧ st.initial ∧ st.busy = false then
        match ready with
        | some generation =>
          if st.readyGeneration ≠ some generation ∨ st.idleConnection.all fun c => !current c then
            some ({ b with state := some { st with
              idle := some now
              readyGeneration := some generation
              idleConnection := connection } }, .none)
          else some (b, .none)
        | none =>
          some ({ b with state := some { st with
            idle := none
            readyGeneration := none } }, .none)
      else some (b, .none)
    | none => some (b, .none)
  | _ => none

/-- One section at its time. Calls are numbered as they begin. -/
def next (now : Nat) : Section → Option (Bridge × Reply)
  | .publish call hook => some (b.publish call hook now)
  | .prune ids => some ({ b with stored := b.stored.filter fun h => h.id ∉ ids }, .none)
  | .intake call serving connection current stored =>
    b.intake session call serving connection current stored now
  | .attach serving => some (b.attach session serving)
  | .poll call serving channel => some (b.poll session call serving channel now)
  | .look call frame clear => b.look call frame clear
  | .unready call => b.unready call
  | .reserve call pushes stored => b.reserve session call pushes stored now
  | .interruptLook call clear => b.interruptLook call clear
  | .interruptReserve call pushes => b.interruptReserve session call pushes
  | .keyed call written => b.keyed session call written
  | .observe call => some (b.observe session call)
  | .observed call ready connection current =>
    b.observed session call ready connection current now
  | .cancel call => some (b.set call none, .none)

/-- Whether the section may begin a call of this number. -/
def admits : Section → Bool
  | .publish call _ | .poll call _ _ | .observe call => (b.calls call).isNone
  | _ => true

end Bridge

/-- Any sections in any order, on a clock that does not go back. -/
def bridge (session : String) : Machine Bridge (Section × Nat) Reply where
  init b := b.stored = [] ∧ b.state = none ∧ ∀ call, b.calls call = none
  step b e b' o := b.clock ≤ e.2 ∧ b.admits e.1 = true ∧
    ({ b with clock := e.2 } : Bridge).next session e.2 e.1 = some (b', o)

end Agend.Claude
