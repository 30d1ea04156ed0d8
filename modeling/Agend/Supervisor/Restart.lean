import Agend.Library.Trace
import Agend.Library.Window
import Agend.Runtime.Records

/-! How the supervisor keeps one instance running: what it watches, which events it accepts, and
when it starts the agent again or gives up. -/
namespace Agend.Supervisor

open Library
open Agend.Runtime (Backend Instance InstanceStatus)

/-- Restarts allowed within the window before giving up. -/
def maxRestarts : Nat := 3

def restartWindowMs : Nat := 10 * 60 * 1000

/-- Restarts of one instance in the last 10 minutes. -/
structure RestartBudget where
  restarts : List Nat

/-- After a death at `now`: the n-th restart in the window, or give up. -/
def RestartBudget.next (b : RestartBudget) (now : Nat) : RestartBudget × Option Nat :=
  let restarts := Window.counting restartWindowMs b.restarts now
  if maxRestarts ≤ restarts.length then (⟨restarts⟩, none)
  else (⟨restarts ++ [now]⟩, some (restarts.length + 1))

inductive State where
  | up
  /-- Waiting for the restart (the n-th). -/
  | restarting (n : Nat)
  | failed
  deriving DecidableEq

structure Watch where
  generation : Nat
  state : State
  budget : RestartBudget

def resumeError (b : Backend) : String :=
  s!"no session id to resume ({b.asStr} cannot resume yet)"

/-- The session arguments that a start adds to the instance's base arguments. -/
def sessionArgs (i : Instance) (resume : Bool) : Except String (List String) :=
  match i.backend, i.sessionId, resume with
  | .claude, some id, false => .ok ["--session-id", id]
  | .claude, some id, true => .ok ["--resume", id]
  | .opencode, some _, true =>
    if i.delivery = "push" then .ok [] else .error (resumeError .opencode)
  | .codex, _, _ => .ok []
  | _, _, false => .ok []
  | backend, _, true => .error (resumeError backend)

/-- Why an instance is started. -/
inductive Starter where
  | boot
  | automatic
  | operator
  deriving DecidableEq

/-- What the supervisor did, as its log says it. -/
inductive Note where
  | death
  | granted (now : Nat)
  | start (by_ : Starter) (resume : Bool)
  | launched (args : List String)
  | recorded
  | failed
  | retried
  deriving DecidableEq

/-- The row of the instance, its watch, and the log, newest note first. -/
structure World where
  row : Instance
  watch : Option Watch
  booted : Bool
  clock : Nat
  log : List Note

/-- What the world outside says while an agent is started: the checks before the launch, what
`prepare_claude` finds, the other parts of the launch, what has to hold right before it, and the
holder with its generation. -/
structure Answers where
  program : Except String Unit
  prepared : Except String Unit
  launch : Except String Unit
  cleanup : Except String Unit
  result : Except String Nat

inductive Death where
  | agentExited
  | holderGone
  | startFailed
  | codexGone

/-- One event. `held`: the record of a backend switch cannot be read; `unread`: the row cannot. -/
inductive Event where
  | boot (running : Bool) (a : Answers)
  | died (cause : Death) (generation : Nat) (held unread : Bool) (now : Nat)
  | launchBindingRejected (generation : Nat)
  | restart (generation : Nat) (held : Bool) (stop : Except String Unit) (unread : Bool)
      (a : Answers)
  | retry (held : Bool) (stop : Except String Unit) (unread : Bool) (a : Answers)
  /-- A driver records the session of the instance. -/
  | session (id : String)

namespace World

variable (s : World)

def note (n : Note) : World := { s with log := n :: s.log }

/-- `watch`: the instance is up, its budget stays. -/
def up (generation : Nat) : World :=
  { s with watch := some ⟨generation, .up, (s.watch.map Watch.budget).getD ⟨[]⟩⟩ }

/-- Gives up on the instance. -/
def fail : World :=
  { s with
    watch := s.watch.map fun w => { w with state := .failed }
    row := { s.row with status := .failed }
    log := .failed :: s.log }

/-- A start that failed is watched under the old generation until its event is handled. -/
def startFailed : World := s.up ((s.watch.map Watch.generation).getD 0)

/-- Records `running` once the first `Spawn` was acknowledged. -/
def markRunning : World :=
  { s with
    row := { s.row with status := .running, sessionStarted := true }
    log := .recorded :: s.log }

/-- The end of `start`: the holder runs its agent, or it does not. -/
def attached (resume : Bool) (result : Except String Nat) : World :=
  match result with
  | .ok generation => (if resume then s else s.markRunning).up generation
  | .error _ => s.startFailed

/-- Starts the instance fresh or resuming. -/
def start (by_ : Starter) (resume : Bool) (a : Answers) : World :=
  let s := s.note (.start by_ resume)
  match a.program with
  | .error _ => s.fail
  | .ok () =>
    match a.prepared with
    | .error _ => s.startFailed
    | .ok () =>
      match a.launch, sessionArgs s.row resume with
      | .error _, _ | .ok (), .error _ => s.fail
      | .ok (), .ok args =>
        match a.cleanup with
        | .error _ => s.fail
        | .ok () => (s.note (.launched args)).attached resume a.result

/-- Reconnects to a running holder, which keeps the agent it has. Should the arguments of a resumed
session be missing, the ones of a fresh one stand in. -/
def reconnect (a : Answers) : World :=
  let resume := s.row.status = .running
  match a.program with
  | .error _ => s.fail
  | .ok () =>
    match a.prepared with
    | .error _ => s.startFailed
    | .ok () =>
      match a.launch with
      | .error _ => s.fail
      | .ok () =>
        match a.cleanup with
        | .error _ => s.fail
        | .ok () => s.attached resume a.result

/-- `plan_boot` for one instance, or the start of one that was just added. -/
def boot (running : Bool) (a : Answers) : World :=
  let s := { s with booted := true }
  if s.row.status = .failed then s
  else if running then s.reconnect a
  else s.start .boot (s.row.status = .running) a

/-- The watch of an instance that is up under this generation. -/
def current (generation : Nat) : Option Watch :=
  s.watch.filter fun w => w.generation = generation && w.state = .up

/-- A death of the current generation: plan the restart or give up. -/
def died (generation : Nat) (held unread : Bool) (now : Nat) : World :=
  match s.current generation with
  | none => s
  | some w =>
    if held || unread then s
    else
      let s := s.note .death
      match s.row.status, sessionArgs s.row true with
      | .running, .error _ => s.fail
      | _, _ =>
        match w.budget.next now with
        | (budget, none) => { s with watch := some { w with budget := budget } }.fail
        | (budget, some n) =>
          { s with watch := some ⟨w.generation, .restarting n, budget⟩ }.note (.granted now)

def launchBindingRejected (generation : Nat) : World :=
  match s.current generation with
  | none => s
  | some _ => s.fail

/-- The watch of an instance that waits for its restart under this generation. -/
def waiting (generation : Nat) : Bool :=
  s.watch.any fun w => w.generation = generation &&
    match w.state with
    | .restarting _ => true
    | _ => false

def restart (generation : Nat) (held : Bool) (stop : Except String Unit) (unread : Bool)
    (a : Answers) : World :=
  if !s.waiting generation || held then s
  else
    match stop with
    | .error _ => s.fail
    | .ok () => if unread then s else s.start .automatic (s.row.status = .running) a

/-- Starts the instance again with a new budget: it resumes a started session or starts one. -/
def retry (held : Bool) (stop : Except String Unit) (unread : Bool) (a : Answers) : World :=
  if held then s
  else
    match stop with
    | .error _ => s.fail
    | .ok () =>
      if unread then s
      else
        let status := if s.row.sessionStarted then InstanceStatus.running else .new
        let s := { s with
          row := { s.row with status := status }
          watch := none }.note .retried
        s.start .operator s.row.sessionStarted a

/-- An event. The first one is the boot, the clock never goes back. -/
def next : Event → Option World
  | .boot running a => if s.booted then none else some (s.boot running a)
  | .died _ generation held unread now =>
    if s.booted && s.clock ≤ now then
      some ({ s with clock := now }.died generation held unread now)
    else none
  | .launchBindingRejected generation =>
    if s.booted then some (s.launchBindingRejected generation) else none
  | .restart generation held stop unread a =>
    if s.booted then some (s.restart generation held stop unread a) else none
  | .retry held stop unread a =>
    if s.booted then some (s.retry held stop unread a) else none
  | .session id => some { s with row := { s.row with sessionId := some id } }

end World

/-- An instance of any status, before the daemon has looked at it. -/
def supervisor : Machine World Event Unit where
  init s := s.watch = none ∧ s.booted = false ∧ s.log = []
  step s e s' _ := s.next e = some s'

end Agend.Supervisor
