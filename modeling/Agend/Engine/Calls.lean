import Agend.Engine.Assign
import Agend.Library.Program

/-! The calls the engine makes to the store, to git and to the drivers, one transaction or one
command each. A call may fail; what git, the forge and the drivers say comes with the answer. -/
namespace Agend.Engine

open Agend.Library Agend.Pipeline Agend.Runtime

structure Refusal where
  code : String
  message : String
  deriving DecidableEq

def invalid (message : String) : Refusal := ⟨"invalid_request", message⟩

def stale (message : String) : Refusal := ⟨"stale_result", message⟩

def forbidden (message : String) : Refusal := ⟨"forbidden", message⟩

/-- What a claim of a message id found. -/
inductive Claim where
  | inserted
  | existing (state : DeliveryState)
  | different
  deriving DecidableEq

/-- The fields of the engine that its programs read. -/
structure Settings where
  home : String
  git : Bool

inductive Call where
  -- the engine
  | openGit
  | settings
  | newId
  -- the store
  | tasks
  | teams
  | members
  | bindings
  | instances
  | instance_ (id : String)
  | loadTask (id : String)
  | loadWorkflow (id : String) (version : Nat)
  | latestWorkflow (id : String)
  | saveWorkflow (workflow : Workflow)
  | advancePipeline (task : Task) (version : Nat) (data : TaskProgress)
      (confirmation : Option String)
  | advanceTask (task : Task) (version : Nat) (data : TaskProgress) (event : String)
  | compareAndSwapTask (task : Task) (version : Nat)
  | taskNote (task : String) (block attention : Option String) (ack : Bool)
  | appendEvent (task event : String)
  | putBinding (binding : BindingRow)
  | deleteBinding (instanceId : String)
  | message (id : String)
  | claimMessage (new : NewMessage)
  | advanceMessage (id : String) (next : DeliveryState)
  | joinTeam (team instanceId role : String)
  | addTeam (team : Team)
  | setTeamWorkflow (team workflow : String)
  | createPipelineTask (task : Task) (pipeline : PipelineSnapshot)
  | addInstance (agent : Agent)
  -- git, the forge and the drivers
  | revParse (repo reference : String)
  | patchId (repo head : String)
  | ancestor (repo ancestor descendant : String)
  | findMerge (repo kind task head : String)
  | ensure (repo : String) (binding : BindingRow)
  | release (repo : String) (binding : BindingRow) (mode : BindingRelease)
  | cleanupRemote (repo task : String) (merged : Bool)
  | execute (task : String) (action : PipelineAction)
  | deliver (recipient : String) (new : NewMessage)
  | housekeeping
  deriving DecidableEq

def Call.Reply : Call → Type
  | .settings => Settings
  | .newId | .revParse _ _ | .patchId _ _ => String
  | .tasks => List Task
  | .teams => List Team
  | .members => List Agent
  | .bindings => List BindingRow
  | .instances => List (Agent × InstanceStatus)
  | .instance_ _ => Option (Agent × InstanceStatus)
  | .loadTask _ => Option TaskRow
  | .loadWorkflow _ _ | .latestWorkflow _ => Option Workflow
  | .advancePipeline _ _ _ _ | .advanceTask _ _ _ _ | .compareAndSwapTask _ _ => Bool
  | .message _ => Option NewMessage
  | .claimMessage _ => Claim
  | .ancestor _ _ _ | .findMerge _ _ _ _ => Bool
  | .release _ _ _ => Option String
  | .execute _ _ => Option String
  | .deliver _ _ => DeliveryState
  | _ => Unit

/-- What the environment decides about one call: whether it fails, and what the world outside the
store has to say. -/
structure Answer where
  fault : Option String := none
  text : String := ""
  yes : Bool := false
  note : Option String := none
  stopped : List String := []
  state : DeliveryState := .sent

namespace World

variable (w : World)

def statusOf (a : Answer) (agent : Agent) : InstanceStatus :=
  if a.stopped.contains agent.id then .failed else .running

/-- The row a writer expects is replaced, with its pipeline columns. -/
def advance (task : Task) (version : Nat) (data : TaskProgress) (clear : Bool) : Bool × World :=
  match w.row task.id with
  | some row =>
    if row.version = version then
      (true, w.putRow ⟨task, version + 1, some
        ⟨data, if clear then none else row.progress.bind (·.attentionReason),
          row.progress.any (·.acknowledged)⟩⟩)
    else (false, w)
  | none => (false, w)

def compareAndSwap (task : Task) (version : Nat) : Bool × World :=
  match w.row task.id with
  | some row =>
    if row.version = version then (true, w.putRow { row with task := task, version := version + 1 })
    else (false, w)
  | none => (false, w)

def note (task : String) (block attention : Option String) (ack : Bool) : World :=
  match w.row task with
  | some row => w.putRow { row with progress := row.progress.map fun p =>
      ⟨{ p.data with blockReason := block }, attention, ack⟩ }
  | none => w

/-- An instance keeps its binding when only ticket, status and head change; a new one needs a
worktree nobody else has. -/
def putBinding (b : BindingRow) : Except Refusal World :=
  match w.bindings.get b.instanceId with
  | some old =>
    if old.task = b.task ∧ old.kind = b.kind ∧ old.worktree = b.worktree then
      .ok { w with bindings :=
        w.bindings.put { old with ticket := b.ticket, status := b.status, head := b.head } }
    else .error (invalid "instance already holds another binding")
  | none =>
    if (w.agents.get b.instanceId).isNone || (w.row b.task).isNone then
      .error (invalid "FOREIGN KEY constraint failed")
    else if w.bindings.rows.any (·.worktree = b.worktree) then
      .error (invalid "UNIQUE constraint failed: bindings.worktree")
    else .ok { w with bindings := w.bindings.put b }

def claim (new : NewMessage) (state : DeliveryState) : Claim × World :=
  match w.messages.get new.id with
  | some old => (if old = new then .existing state else .different, w)
  | none => (.inserted, { w with messages := w.messages.put new })

/-- The instance is the assignee of an open task, or has a binding. -/
def busy (instanceId : String) : Bool :=
  w.tasks.rows.any (fun r => r.isOpen && r.task.assignee = some instanceId) ||
    w.bindings.rows.any (·.instanceId = instanceId)

def joinTeam (team instanceId role : String) : Except Refusal World :=
  if w.busy instanceId then
    .error (invalid s!"{instanceId} holds a task; cancel it before changing its team or role")
  else match w.agents.get instanceId with
    | some agent => .ok { w with agents := w.agents.put { agent with team := team, role := role } }
    | none => .error (invalid "unknown instance")

def addTeam (team : Team) : Except Refusal World :=
  if (w.teams.get team.id).isSome then .error (invalid "UNIQUE constraint failed: teams.id")
  else .ok { w with teams := w.teams.put team }

def setTeamWorkflow (team workflow : String) : Except Refusal World :=
  match w.teams.get team with
  | some t => .ok { w with teams := w.teams.put { t with defaultWorkflow := workflow } }
  | none => .error (invalid "unknown team")

def saveWorkflow (workflow : Workflow) : Except Refusal World :=
  if (w.workflows.get (workflowKey workflow)).isSome then
    .error (invalid s!"workflow {workflow.id} version {workflow.version} exists")
  else .ok { w with workflows := w.workflows.put workflow }

def latestWorkflow (id : String) : Option Workflow :=
  (w.workflows.rows.filter (·.id = id)).foldl
    (fun best next => if best.any (next.version ≤ ·.version) then best else some next) none

def createPipelineTask (task : Task) (pipeline : PipelineSnapshot) : Except Refusal World :=
  if (w.row task.id).isSome then .error (invalid "UNIQUE constraint failed: tasks.id")
  else .ok (w.putRow ⟨task, 1, some ⟨⟨some pipeline, none⟩, none, false⟩⟩)

def addInstance (agent : Agent) : Except Refusal World :=
  if !Runtime.validateId agent.id then .error (invalid (invalidId agent.id))
  else if (w.agents.get agent.id).isSome then .error (invalid s!"instance {agent.id} exists")
  else .ok { w with agents := w.agents.put agent }

/-- A write that may be refused. -/
def write (result : Except Refusal World) : Except Refusal Unit × World :=
  match result with
  | .ok w' => (.ok (), w')
  | .error e => (.error e, w)

/-- A call that goes through. -/
def perform (a : Answer) : (c : Call) → Except Refusal c.Reply × World
  | .openGit => (.ok (), { w with git := a.yes })
  | .settings => (.ok ⟨w.home, w.git⟩, w)
  | .newId => (.ok a.text, w)
  | .tasks => (.ok (w.tasks.values.map (·.task)), w)
  | .teams => (.ok w.teams.values, w)
  | .members => (.ok w.agents.values, w)
  | .bindings => (.ok w.bindings.values, w)
  | .instances => (.ok (w.agents.values.map fun agent => (agent, statusOf a agent)), w)
  | .instance_ id => (.ok ((w.agents.get id).map fun agent => (agent, statusOf a agent)), w)
  | .loadTask id => (.ok (w.row id), w)
  | .loadWorkflow id version => (.ok (w.workflows.get (id, version)), w)
  | .latestWorkflow id => (.ok (w.latestWorkflow id), w)
  | .saveWorkflow workflow => w.write (w.saveWorkflow workflow)
  | .advancePipeline task version data _ =>
    let r := w.advance task version data true
    (.ok r.1, r.2)
  | .advanceTask task version data _ =>
    let r := w.advance task version data false
    (.ok r.1, r.2)
  | .compareAndSwapTask task version =>
    let r := w.compareAndSwap task version
    (.ok r.1, r.2)
  | .taskNote task block attention ack => (.ok (), w.note task block attention ack)
  | .appendEvent _ _ => (.ok (), w)
  | .putBinding b => w.write (w.putBinding b)
  | .deleteBinding instanceId => (.ok (), w.drop instanceId)
  | .message id => (.ok (w.messages.get id), w)
  | .claimMessage new =>
    let r := w.claim new a.state
    (.ok r.1, r.2)
  | .advanceMessage _ _ => (.ok (), w)
  | .joinTeam team instanceId role => w.write (w.joinTeam team instanceId role)
  | .addTeam team => w.write (w.addTeam team)
  | .setTeamWorkflow team workflow => w.write (w.setTeamWorkflow team workflow)
  | .createPipelineTask task pipeline => w.write (w.createPipelineTask task pipeline)
  | .addInstance agent => w.write (w.addInstance agent)
  | .revParse _ _ => (.ok a.text, w)
  | .patchId _ _ => (.ok a.text, w)
  | .ancestor _ _ _ => (.ok a.yes, w)
  | .findMerge _ _ _ _ => (.ok a.yes, w)
  -- The worktree is made first; the binding is written when it is ready.
  | .ensure _ b => w.write (w.putBinding { b with status := .ready })
  -- The worktree is archived and removed first; the binding goes last.
  | .release _ b _ => (.ok a.note, w.drop b.instanceId)
  | .cleanupRemote _ _ _ => (.ok (), w)
  | .execute _ _ => (.ok a.note, w)
  | .deliver _ _ => (.ok a.state, w)
  | .housekeeping => (.ok (), w)

def exec (c : Call) (a : Answer) : Except Refusal c.Reply × World :=
  match a.fault with
  | some reason => (.error (invalid reason), w)
  | none => w.perform a c

end World

def interface : Interface World Refusal where
  Call := Call
  Reply := Call.Reply
  Answer := Answer
  exec c a w := w.exec c a

/-- A procedure of the engine. -/
abbrev Routine := Program interface

def call (c : Call) : Routine c.Reply := Program.ask (I := interface) c

namespace Store

def tasks : Routine (List Task) := call .tasks
def teams : Routine (List Team) := call .teams
def members : Routine (List Agent) := call .members
def bindings : Routine (List BindingRow) := call .bindings
def instances : Routine (List (Agent × InstanceStatus)) := call .instances
def instance_ (id : String) : Routine (Option (Agent × InstanceStatus)) :=
  call (.instance_ id)
def loadTask (id : String) : Routine (Option TaskRow) :=
  call (.loadTask id)
def loadWorkflow (id : String) (version : Nat) : Routine (Option Workflow) :=
  call (.loadWorkflow id version)
def latestWorkflow (id : String) : Routine (Option Workflow) :=
  call (.latestWorkflow id)
def saveWorkflow (workflow : Workflow) : Routine Unit :=
  call (.saveWorkflow workflow)
def advancePipeline (task : Task) (version : Nat) (data : TaskProgress)
    (confirmation : Option String) : Routine Bool :=
  call (.advancePipeline task version data confirmation)
def advanceTask (task : Task) (version : Nat) (data : TaskProgress) (event : String) :
    Routine Bool :=
  call (.advanceTask task version data event)
def compareAndSwapTask (task : Task) (version : Nat) : Routine Bool :=
  call (.compareAndSwapTask task version)
def taskNote (task : String) (block attention : Option String) (ack : Bool) : Routine Unit :=
  call (.taskNote task block attention ack)
def appendEvent (task event : String) : Routine Unit :=
  call (.appendEvent task event)
def putBinding (binding : BindingRow) : Routine Unit :=
  call (.putBinding binding)
def deleteBinding (instanceId : String) : Routine Unit :=
  call (.deleteBinding instanceId)
def message (id : String) : Routine (Option NewMessage) :=
  call (.message id)
def claimMessage (new : NewMessage) : Routine Claim :=
  call (.claimMessage new)
def advanceMessage (id : String) (next : DeliveryState) : Routine Unit :=
  call (.advanceMessage id next)
def joinTeam (team instanceId role : String) : Routine Unit :=
  call (.joinTeam team instanceId role)
def addTeam (team : Team) : Routine Unit := call (.addTeam team)
def setTeamWorkflow (team workflow : String) : Routine Unit :=
  call (.setTeamWorkflow team workflow)
def createPipelineTask (task : Task) (pipeline : PipelineSnapshot) : Routine Unit :=
  call (.createPipelineTask task pipeline)
def addInstance (agent : Agent) : Routine Unit := call (.addInstance agent)

end Store

-- Everything that is not the store: the engine's own fields, git, the forge and the drivers.
namespace Executor

def openGit : Routine Unit := call .openGit
def settings : Routine Settings := call .settings
def newId : Routine String := call .newId
def revParse (repo reference : String) : Routine String :=
  call (.revParse repo reference)
def patchId (repo head : String) : Routine String :=
  call (.patchId repo head)
def ancestor (repo ancestor descendant : String) : Routine Bool :=
  call (.ancestor repo ancestor descendant)
def findMerge (repo kind task head : String) : Routine Bool :=
  call (.findMerge repo kind task head)
def ensure (repo : String) (binding : BindingRow) : Routine Unit :=
  call (.ensure repo binding)
def release (repo : String) (binding : BindingRow) (mode : BindingRelease) :
    Routine (Option String) :=
  call (.release repo binding mode)
def cleanupRemote (repo task : String) (merged : Bool) : Routine Unit :=
  call (.cleanupRemote repo task merged)
def execute (task : String) (action : PipelineAction) : Routine (Option String) :=
  call (.execute task action)
def deliver (recipient : String) (new : NewMessage) : Routine DeliveryState :=
  call (.deliver recipient new)
def housekeeping : Routine Unit := call .housekeeping

end Executor

end Agend.Engine
