import Agend.Library.Lines
import Agend.Engine.Lifecycle

/-! The requests the engine serves, one after the other, and what it does when it starts. -/
namespace Agend.Engine

open Agend.Library Agend.Pipeline Agend.Runtime Program

def statusOf : PipelineStatus → TaskStatus
  | .pending => .open_
  | .running => .running
  | .done => .done
  | .failed => .failed
  | .cancelled => .cancelled

def roleApproval (s : PipelineState) : Option String :=
  match s.currentStage.map WorkflowStage.stage with
  | some (.approval (.role role) _ _) => some role
  | _ => none

/-- The dispatch a result answers. -/
def confirmationOf (s : PipelineState) : PipelineEvent → Option String
  | .workCompleted _ _ _ => some (dispatchId (ticket s) false "")
  | .approvalGranted _ _ reviewer _ _ | .changesRequested _ _ reviewer _ _ =>
    (roleApproval s).map fun _ => dispatchId (ticket s) true reviewer
  | _ => none

/-- Side effects are returned only after the commit has succeeded. -/
def advance (loaded : Loaded) (event : PipelineEvent) :
    Routine (Task × PipelineState × List PipelineAction) := do
  let _ ← Executor.newId
  match step loaded.state event with
  | .error e =>
    let message := e.message ++ "; now " ++ ticket loaded.state
    raise (if e = .mergeInFlight then ⟨"merge_in_flight", message⟩ else stale message)
  | .ok (next, actions) =>
    let task := { loaded.task with status := statusOf next.status, mergeCommit := next.mergeCommit }
    let written ← Store.advancePipeline task loaded.version ⟨some next.snapshot, none⟩
      (confirmationOf loaded.state event)
    check written (invalid "pipeline CAS conflict; event discarded")
    pure (task, next, actions)

/-- A review binding of another ticket, or of a reviewer who answered this one. -/
def obsolete (state : PipelineState) (b : BindingRow) : Bool :=
  b.kind = .review &&
    (decide (b.ticket ≠ ticket state) || state.approvalReviewers.contains b.instanceId)

/-- Drop obsolete review bindings before a new attempt is dispatched. -/
def settle (task : Task) (next : PipelineState) (actions : List PipelineAction) :
    Routine Unit := do
  let bindings ← Store.bindings
  forEach (release · false) (bindings.filter fun b => b.task = task.id && obsolete next b)
  forEach (action task next) actions

def commitTransition (loaded : Loaded) (event : PipelineEvent) : Routine Unit := do
  let (task, next, actions) ← advance loaded event
  orFail task.id (settle task next actions)

/-- Results observe the actual branch before they are used. -/
def observes : PipelineEvent → Bool
  | .start | .cancel _ | .commitCreated _ _ | .mainAdvanced _ _ _ | .mergeCompleted _ _ _ _ => false
  | _ => true

def isCancel : PipelineEvent → Bool
  | .cancel _ => true
  | _ => false

def PendingHeadChange.observed (head : String) : PendingHeadChange → Bool
  | .commitCreated pending _ => pending = head
  | .mainAdvanced rebased _ _ => rebased = head

def observe (loaded : Loaded) (event : PipelineEvent) : Routine Loaded := do
  let me ← Executor.settings
  match loaded.state.branch.filter fun _ => observes event && me.git with
  | none => pure loaded
  | some branch =>
    let t ← team loaded.task.teamId
    match t.repo with
    | none => pure loaded
    | some repo =>
      let head ← Executor.revParse repo ("refs/heads/" ++ branch)
      if loaded.state.currentHead = some head ∨
          loaded.state.pendingHeadChanges.any (PendingHeadChange.observed head) then pure loaded
      else
        let patch ← Executor.patchId repo head
        commitTransition loaded (.commitCreated head patch)
        load loaded.state.taskId

/-- Git is missing and the task's team has a repository. -/
def repoWaits (teamId : String) : Routine Bool := do
  let me ← Executor.settings
  if me.git then pure false
  else
    let t ← team teamId
    pure t.repo.isSome

def event (id : String) (event : PipelineEvent) : Routine Unit := do
  let loaded ← load id
  check (loaded.task.status ≠ .blocked || isCancel event)
    (invalid "task is blocked; unblock it first")
  check (!loaded.task.status.isClosed) (stale "task is closed; ticket is no longer current")
  let waits ← repoWaits loaded.task.teamId
  check (!waits || isCancel event) (invalid "repo execution unavailable; waiting for git")
  let loaded ← observe loaded event
  commitTransition loaded event

structure ResultIdentity where
  stageId : String
  attempt : Nat
  deriving DecidableEq

def currentIdentity (s : PipelineState) : Option ResultIdentity :=
  s.currentStage.map fun stage => ⟨stage.id, s.attempt⟩

def knownInstance (caller : String) : Routine Unit := do
  let found ← Store.instance_ caller
  check found.isSome ⟨"unknown_instance", s!"unknown instance {caller}"⟩

def owned (caller id : String) : Routine Loaded := do
  let loaded ← load id
  check (loaded.task.assignee = some caller) (forbidden s!"{caller} does not hold {id}")
  pure loaded

/-- A result belongs to the current attempt, and to whoever has it. -/
def ownedResult (caller id : String) (identity : Option ResultIdentity) (review : Bool) :
    Routine Loaded := do
  let loaded ← load id
  check (!loaded.task.status.isClosed) (stale "task is closed; ticket is no longer current")
  check (identity.isSome && identity = currentIdentity loaded.state &&
      loaded.state.status = .running)
    (stale s!"ticket is no longer current (now {ticket loaded.state})")
  if review then
    let bindings ← Store.bindings
    check (bindings.any fun b => b.instanceId = caller && b.task = id && b.kind = .review &&
        b.ticket = ticket loaded.state)
      (forbidden "only this attempt's assigned reviewer can report review")
  else
    check (loaded.task.assignee = some caller) (forbidden "only the task holder can report work")
  pure loaded

def completeWork (loaded : Loaded) (product : WorkProduct) : Routine Unit := do
  let stage ← orRaise loaded.state.currentStage (invalid "no stage")
  event loaded.state.taskId (.workCompleted stage.id loaded.state.attempt product)

def reportDone (caller id : String) (identity : Option ResultIdentity) : Routine Unit := do
  knownInstance caller
  let loaded ← ownedResult caller id identity false
  let t ← team loaded.task.teamId
  let repo ← orRaise t.repo (invalid "done requires a repository; use agend result")
  let bindings ← Store.bindings
  let binding ← orRaise (bindings.find? fun b => b.instanceId = caller && b.task = id &&
    b.kind = .work) (invalid "no work binding")
  let branch ← orRaise binding.branch (invalid "no branch")
  let me ← Executor.settings
  check me.git (invalid "git unavailable")
  let head ← Executor.revParse repo ("refs/heads/" ++ branch)
  let merged ← Executor.ancestor repo head "main"
  check (!merged) (invalid s!"nothing to merge: {branch} has no commits beyond main; commit your work, then agend done {ticket loaded.state}")
  let patch ← Executor.patchId repo head
  completeWork loaded (.branch branch head patch)

def reportResult (caller id summary : String) (output : Option String)
    (identity : Option ResultIdentity) : Routine Unit := do
  knownInstance caller
  let loaded ← ownedResult caller id identity false
  completeWork loaded (if loaded.state.currentStage.any (·.isPlanWork) then
    .plan (lines summary) else .result summary output)

def reviewEvent (loaded : Loaded) (stageId caller : String) (head : Option String)
    (reason : Option String) : PipelineEvent :=
  match reason with
  | none => .approvalGranted stageId loaded.state.attempt caller head none
  | some reason => .changesRequested stageId loaded.state.attempt caller head reason

def review (caller id : String) (identity : Option ResultIdentity) (reason : Option String) :
    Routine Unit := do
  knownInstance caller
  check (!reason.any isBlank) (invalid "review changes requires a reason")
  let loaded ← ownedResult caller id identity true
  let bindings ← Store.bindings
  let binding ← orRaise (bindings.find? fun b => b.instanceId = caller && b.task = id &&
    b.kind = .review) (invalid "review binding missing")
  let stage ← orRaise loaded.state.currentStage (invalid "no stage")
  event id (reviewEvent loaded stage.id caller
    (if stage.isBoundApproval then binding.head else none) reason)
  let bindings ← Store.bindings
  if bindings.contains binding then release binding false else pure ()

/-- A reason blocks, no reason unblocks; an unblocked task is asked again. -/
def block (caller id : String) (reason : Option String) : Routine Unit := do
  knownInstance caller
  let loaded ← owned caller id
  check (!loaded.state.mergeInFlight) ⟨"merge_in_flight", "merging task cannot be blocked"⟩
  check (!reason.any isBlank) (invalid "block requires a reason")
  let task ← done ((loaded.task.apply (if reason.isSome then .block else .unblock)).mapError
    fun e => invalid e.message)
  let event ← Executor.newId
  let written ← Store.advanceTask task loaded.version
    { loaded.progress.data with blockReason := reason } event
  check written (invalid "block CAS conflict")
  if reason.isSome then pure ()
  else forEach (action task loaded.state) loaded.state.outstandingActions

def createTask (title role teamId : String) (workflowId : Option String) : Routine Unit := do
  check (!isBlank title && !isBlank role) (invalid "task requires title and role")
  let t ← team teamId
  let id := workflowId.getD t.defaultWorkflow
  let workflow ← Store.latestWorkflow id
  let workflow ← orRaise workflow (invalid s!"unknown workflow {id}")
  let first ← orRaise workflow.stages.head? (invalid "workflow has no stages")
  check (match first.stage with
    | .work r _ _ => r = role
    | _ => false) (invalid s!"--role must match workflow's first work role: {reprStr first.stage}")
  check (!workflow.requiresRepo || t.repo.isSome)
    (invalid "workflow requires a repo; this team has none")
  if workflow.requiresRepo then
    let me ← Executor.settings
    check me.git (invalid "real git not found")
    -- An old git fails this call.
    let _ ← Executor.revParse (t.repo.getD "") "--version"
    pure ()
  else pure ()
  let tasks ← Store.tasks
  let taskId := "t-" ++ toString (tasks.length + 1)
  let v ← done (validate workflow)
  Store.createPipelineTask { Task.new taskId title teamId workflow.id workflow.version with
    requiresRepo := workflow.requiresRepo } (PipelineState.new taskId v).snapshot
  event taskId .start

def cancel (id : String) (reason : Option String) : Routine Unit :=
  event id (.cancel (reason.getD "cancelled by operator"))

def validateId (id : String) : Routine Unit :=
  check (Runtime.validateId id) (invalid (invalidId id))

def addTeam (teamId : String) (repo workflowId : Option String) : Routine Unit := do
  validateId teamId
  let id := workflowId.getD (if repo.isSome then "code" else "research")
  let found ← Store.latestWorkflow id
  check found.isSome (invalid "unknown workflow")
  match repo with
  | some repo =>
    let me ← Executor.settings
    check me.git (invalid "git unavailable")
    let _ ← Executor.revParse repo "main"
    pure ()
  | none => pure ()
  Store.addTeam ⟨teamId, repo, id⟩

def joinTeam (teamId instanceId role : String) : Routine Unit := do
  let _ ← team teamId
  validateId role
  Store.joinTeam teamId instanceId role

def setTeamWorkflow (teamId workflowId : String) : Routine Unit := do
  let _ ← team teamId
  let workflow ← Store.latestWorkflow workflowId
  let workflow ← orRaise workflow (invalid "unknown workflow")
  let _ ← done (validate workflow)
  Store.setTeamWorkflow teamId workflowId

def builtins : List Workflow := [.builtinCode, builtinResearch, builtinPlanned, builtinEpic]

def applyWorkflow (workflow : Workflow) : Routine Unit := do
  check (!(builtins.map (·.id)).contains workflow.id) (invalid "built-in workflows are read-only")
  validateId workflow.id
  let latest ← Store.latestWorkflow workflow.id
  let workflow := { workflow with version := latest.elim 1 (·.version + 1) }
  let _ ← done (validate workflow)
  Store.saveWorkflow workflow

/-- The operator answers the approval shown for a ticket. -/
def operatorReview (id shown : String) (reason : Option String) : Routine Unit := do
  let loaded ← load id
  check (shown = ticket loaded.state)
    ⟨"unknown_attention", "approval attempt is no longer current"⟩
  let stage ← orRaise loaded.state.currentStage (invalid "missing approval stage")
  match stage.stage with
  | .approval .human _ bindHead =>
    check (!reason.any isBlank) (invalid "request_changes requires a nonempty note")
    event id (reviewEvent loaded stage.id "operator"
      (if bindHead then loaded.state.currentHead else none) reason)
  | _ => raise (invalid "not a human approval")

def acknowledge (id : String) : Routine Unit := do
  let row ← Store.loadTask id
  let p ← orRaise (row.bind (·.progress)) (invalid "missing task progress")
  Store.taskNote id p.data.blockReason p.attentionReason true

/-- The view offers Retry for a task whose row holds an attention reason. -/
def retry (id : String) : Routine Unit := do
  let row ← Store.loadTask id
  check ((row.bind (·.progress)).any (·.attentionReason.isSome))
    ⟨"unknown_attention", "action is not available for this item"⟩
  note id none
  let loaded ← load id
  cleanupTerminal loaded.task false
  forEach (action loaded.task loaded.state) loaded.state.outstandingActions

inductive CheckResult where
  | blocked (reason : String)
  | sandbox (reason : String)
  | exited (code : Option Int)
  deriving DecidableEq

/-- The result of a check that is still asked for. -/
def checkResult (id stageId : String) (attempt : Nat) (head : Option String)
    (result : CheckResult) : Routine Unit := do
  let loaded ← load id
  if loaded.task.status = .running ∧ ticket loaded.state = ticketOf id stageId attempt then
    match result with
    | .blocked reason => note id (some ("checks-blocked:" ++ reason))
    | .sandbox reason => note id (some ("sandbox-missing:" ++ reason))
    | .exited code => event id (.commandFinished stageId attempt head code)
  else pure ()

def wakeActions (task : Task) (state : PipelineState) : List PipelineAction → Routine Unit
  | [] => pure ()
  | a :: rest => do
    let sent ← if task.assignee.isSome then Store.message ("dispatch:" ++ ticket state) else pure none
    if sent.isSome && asksForWork a then wakeActions task state rest
    else
      let result ← attempt (action task state a)
      match result with
      | .ok () => wakeActions task state rest
      | .error _ => failRestore task.id

def wakeTask (task : Task) : Routine Unit := do
  let waits ← repoWaits task.teamId
  if waits then pure ()
  else
    let loaded ← load task.id
    if loaded.progress.attentionReason.isSome then pure ()
    else wakeActions task loaded.state (loaded.state.outstandingActions.filter dispatches)

def isActive (task : Task) : Bool := task.status = .running || task.status = .open_

/-- Retry terminal cleanup before allocating capacity to another task. -/
def wake : Routine Unit := do
  let tasks ← Store.tasks
  forEach (cleanupTerminal · false) tasks
  let tasks ← Store.tasks
  forEach wakeTask (tasks.filter isActive)

def ensureBinding (repo : String) (b : BindingRow) : Routine Unit := do
  let result ← attempt (Executor.ensure repo b)
  match result with
  | .ok () => pure ()
  | .error _ =>
    failRestore b.task
    let _ ← attempt (release b false)
    pure ()

def releaseObsolete (b : BindingRow) : Routine Unit := do
  let result ← attempt (release b false)
  match result with
  | .ok () => pure ()
  | .error _ => failRestore b.task

/-- A proven merge survives worktree cleanup. -/
def reconcileMerging (repo : String) (state : PipelineState) (b : BindingRow) : Routine Unit := do
  let kind := state.workflow.forgeKind
  let found ← attempt (Executor.findMerge repo kind b.task (state.currentHead.getD ""))
  match found with
  | .ok true => pure ()
  | .ok false => ensureBinding repo b
  | .error e =>
    if kind = "github" then note b.task (some ("merge-blocked:" ++ e.message))
    else failRestore b.task

def reconcileOpen (repo : String) (task : Task) (b : BindingRow) : Routine Unit := do
  let loaded ← attempt (load task.id)
  match loaded with
  | .error _ => ensureBinding repo b
  | .ok loaded =>
    if obsolete loaded.state b then releaseObsolete b
    else if b.kind = .review ∧ b.head.isNone then pure ()
    else if loaded.state.mergeInFlight then reconcileMerging repo loaded.state b
    else ensureBinding repo b

def reconcileBinding (tasks : List Task) (b : BindingRow) : Routine Unit :=
  match tasks.find? (·.id = b.task) with
  | none => pure ()
  | some task =>
    if task.status.isClosed then cleanupTerminal task false
    else do
      let t ← team task.teamId
      let me ← Executor.settings
      match t.repo.filter fun _ => me.git with
      | some repo => reconcileOpen repo task b
      | none => pure ()

def freeClosed (bindings : List BindingRow) (task : Task) : Routine Unit :=
  if task.status.isClosed && task.assignee.isSome && !bindings.any (·.task = task.id) then do
    let row ← Store.loadTask task.id
    let row ← orRaise row (invalid "task disappeared")
    let written ← Store.compareAndSwapTask { row.task with assignee := none } row.version
    check written (invalid "cleanup CAS conflict")
  else pure ()

def reconcileBindings : Routine Unit := do
  let tasks ← Store.tasks
  let bindings ← Store.bindings
  forEach (reconcileBinding tasks) bindings
  let _ ← Store.members
  let bindings ← Store.bindings
  forEach (freeClosed bindings) tasks
  let _ ← Store.teams
  Executor.housekeeping

def saveBuiltin (workflow : Workflow) : Routine Unit := do
  let found ← Store.latestWorkflow workflow.id
  if found.isNone then Store.saveWorkflow workflow else pure ()

def bootLoad (task : Task) : Routine Unit := do
  let result ← attempt (load task.id)
  match result with
  | .ok _ => pure ()
  | .error _ => failRestore task.id

/-- A pending task starts; any other is asked again for what it has not answered. -/
def resume (task : Task) : Routine Unit := do
  let loaded ← load task.id
  if loaded.state.status = .pending then commitTransition loaded .start
  else forEach (action task loaded.state) loaded.state.outstandingActions

def bootTask (task : Task) : Routine Unit := do
  let waits ← repoWaits task.teamId
  if waits then pure ()
  else
    let result ← attempt (resume task)
    match result with
    | .ok () => pure ()
    | .error _ =>
      let row ← Store.loadTask task.id
      if row.any (·.task.status ≠ .failed) then failRestore task.id else pure ()

def boot : Routine Unit := do
  Executor.openGit
  forEach saveBuiltin builtins
  let tasks ← Store.tasks
  forEach bootLoad (tasks.filter fun t => !t.status.isClosed)
  reconcileBindings
  let tasks ← Store.tasks
  forEach (cleanupTerminal · false) tasks
  let tasks ← Store.tasks
  forEach bootTask (tasks.filter isActive)

/-- What the queue brings. An event from git, a forge or a timer is any event at all. -/
inductive Request where
  | done (caller task : String) (identity : Option ResultIdentity)
  | result (caller task summary : String) (output : Option String)
      (identity : Option ResultIdentity)
  | review (caller task : String) (identity : Option ResultIdentity) (reason : Option String)
  | block (caller task : String) (reason : Option String)
  | createTask (title role teamId : String) (workflowId : Option String)
  | cancel (task : String) (reason : Option String)
  | addTeam (teamId : String) (repo workflowId : Option String)
  | joinTeam (teamId instanceId role : String)
  | setTeamWorkflow (teamId workflowId : String)
  | applyWorkflow (workflow : Workflow)
  | operatorReview (task shown : String) (reason : Option String)
  | acknowledge (task : String)
  | retry (task : String)
  | event (task : String) (event : PipelineEvent)
  | checkResult (task stageId : String) (attempt : Nat) (head : Option String)
      (result : CheckResult)
  | wake
  | daily
  | addInstance (agent : Agent)
  deriving DecidableEq

def serve : Request → Routine Unit
  | .done caller task identity => reportDone caller task identity
  | .result caller task summary output identity => reportResult caller task summary output identity
  | .review caller task identity reason => review caller task identity reason
  | .block caller task reason => block caller task reason
  | .createTask title role teamId workflowId => createTask title role teamId workflowId
  | .cancel task reason => cancel task reason
  | .addTeam teamId repo workflowId => addTeam teamId repo workflowId
  | .joinTeam teamId instanceId role => joinTeam teamId instanceId role
  | .setTeamWorkflow teamId workflowId => setTeamWorkflow teamId workflowId
  | .applyWorkflow workflow => applyWorkflow workflow
  | .operatorReview task shown reason => operatorReview task shown reason
  | .acknowledge task => acknowledge task
  | .retry task => retry task
  | .event task event => Engine.event task event
  | .checkResult task stageId attempt head result => checkResult task stageId attempt head result
  | .wake => wake
  | .daily => reconcileBindings
  | .addInstance agent => Store.addInstance agent

def server : Server interface where
  Request := Request
  start := boot
  serve := serve

end Agend.Engine
