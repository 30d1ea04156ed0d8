import Agend.Engine.Calls
import Agend.Library.Except

/-! What the engine does with one action of a pipeline: whom it assigns, what it binds and what it
sends; how a binding is given up and how a task is closed. Timers, the view and the log are left
out: they read the store and change nothing in it. -/
namespace Agend.Engine

open Agend.Library Agend.Pipeline Agend.Runtime Program

/-- The identity of one attempt of one stage of one task. -/
def ticketOf (task stage : String) (attempt : Nat) : String :=
  task ++ "/" ++ stage ++ "/" ++ toString attempt

def ticket (s : PipelineState) : String :=
  ticketOf s.taskId ((s.currentStage.map (·.id)).getD "done") s.attempt

/-- The work product as reviewers and the next writer read it. -/
def workProduct (s : PipelineState) : String :=
  match s.workProduct with
  | some (.result summary output) =>
    "Result:\n" ++ summary ++ (output.elim "" fun output => "\nOutput:\n" ++ output)
  | some (.plan items) => "Plan:\n" ++ "\n".intercalate items
  | some (.branch branch head _) =>
    "Branch: " ++ branch ++ "\nHead: " ++ s.currentHead.getD head
  | none => ""

def slug (title : String) : String :=
  let mapped := title.toList.map fun c =>
    if c.isAlpha || c.isDigit then c.toLower else '-'
  let trimmed := ((mapped.dropWhile (· = '-')).reverse.dropWhile (· = '-')).reverse
  let slug := String.ofList (trimmed.take 40)
  if slug = "" then "task" else slug

def branchNamespace : String := "agend/"

def workBranch (taskId slug : String) : String := branchNamespace ++ taskId ++ "/" ++ slug

/-- The task id of a branch shaped `agend/<task-id>/<slug>` with nonempty parts. -/
def taskIdOfBranch (branch : String) : Option String :=
  match branch.toList with
  | 'a' :: 'g' :: 'e' :: 'n' :: 'd' :: '/' :: rest =>
    let task := rest.takeWhile (· ≠ '/')
    match rest.dropWhile (· ≠ '/') with
    | '/' :: _ :: _ => if task.isEmpty then none else some (String.ofList task)
    | _ => none
  | _ => none

def builtinResearch : Workflow where
  id := "research"
  version := 1
  requires := []
  allowUnreviewed := false
  stages := [
    .new "work" (.work "researcher" "" .result),
    .new "review" (.approval (.role "reviewer") 1 false)]

/-- A human reviews the plan; agents review and check the implementation. -/
def builtinPlanned : Workflow where
  id := "planned"
  version := 1
  requires := [.repo]
  allowUnreviewed := false
  stages := [
    .new "plan" (.work "planner" "" .result),
    .new "plan_review" (.approval .human 1 false),
    .new "work" (.work "dev" "" .branch),
    .new "submit" (.submit "local"),
    { WorkflowStage.new "checks" (.command "cargo test") with timeoutMs := some 300000 },
    .new "review" (.approval (.role "reviewer") 1 true),
    .new "merge" .merge]

def builtinEpic : Workflow where
  id := "epic"
  version := 1
  requires := []
  allowUnreviewed := false
  stages := [
    .new "plan" (.work "planner" "" .plan),
    .new "fanout" (.fanout .workOutput .all),
    .new "review" (.approval .human 1 false)]

/-- The first thing this daemon cannot execute about a stage. -/
def unsupported (s : WorkflowStage) : Option String :=
  match s.stage with
  | .approval .human count _ =>
    if count ≠ 1 then
      some "human approval count must be 1; this daemon has one operator identity"
    else if s.onTimeout = some .reassign then
      some "fanout and timeout reassign are not supported yet"
    else none
  | .fanout _ _ => some "fanout and timeout reassign are not supported yet"
  | .command _ =>
    if s.onTimeout = some .reassign then
      some "fanout and timeout reassign are not supported yet"
    else if s.onTimeout.isSome then
      some "command on_timeout is not supported; runner controls command timeouts"
    else none
  | _ =>
    if s.onTimeout = some .reassign then
      some "fanout and timeout reassign are not supported yet"
    else none

def stageRoles (w : Workflow) : List String :=
  w.stages.filterMap fun s => match s.stage with
    | .work role _ _ => some role
    | .approval (.role role) _ _ => some role
    | _ => none

/-- Supported execution, whatever the team has: a missing role queues instead. -/
def validate (w : Workflow) : Except Refusal ValidatedWorkflow :=
  match w.stages.findSome? unsupported with
  | some reason => .error (invalid reason)
  | none =>
    match w.validated (stageRoles w) with
    | .ok v => .ok v
    | .error e => .error (invalid s!"invalid workflow: {reprStr e}")

structure Loaded where
  version : Nat
  task : Task
  state : PipelineState
  progress : Progress

/-- A stored pipeline put back together with its workflow. -/
def restored (id : String) (row : TaskRow) (workflow : Option Workflow) :
    Except Refusal Loaded := do
  let workflow ← okOr workflow (invalid "task workflow version missing")
  require (workflow.id = row.task.workflowId ∧ workflow.version = row.task.workflowVersion ∧
    workflow.requiresRepo = row.task.requiresRepo)
    (invalid "workflow differs from the task's pinned definition")
  let progress ← okOr row.progress (invalid "pipeline snapshot missing")
  let snapshot ← okOr progress.data.pipeline (invalid "invalid pipeline snapshot")
  let v ← validate workflow
  let state ← (PipelineState.restore snapshot v).mapError invalid
  require (state.taskId = id) (invalid "snapshot task id differs from row")
  require (state.branch.all fun branch => taskIdOfBranch branch = some id)
    (invalid "snapshot branch belongs to another task or namespace")
  .ok ⟨row.version, row.task, state, progress⟩

def load (id : String) : Routine Loaded := do
  let row ← Store.loadTask id
  let row ← orRaise row (invalid s!"unknown task {id}")
  let workflow ← Store.loadWorkflow row.task.workflowId row.task.workflowVersion
  done (restored id row workflow)

def team (id : String) : Routine Team := do
  let teams ← Store.teams
  orRaise (teams.find? (·.id = id)) (invalid s!"unknown team {id}")

def note (task : String) (reason : Option String) : Routine Unit := do
  let row ← Store.loadTask task
  let p ← orRaise (row.bind (·.progress)) (invalid "pipeline missing")
  Store.taskNote task p.data.blockReason reason p.acknowledged

/-- Give a binding up: git archives the work and removes the worktree first, where there is one. -/
def releaseMode (b : BindingRow) (mode : BindingRelease) : Routine Unit := do
  let row ← Store.loadTask b.task
  let row ← orRaise row (invalid "binding task missing")
  let t ← team row.task.teamId
  match t.repo.filter fun _ => b.kind ≠ .review || b.head.isSome with
  | some repo =>
    let me ← Executor.settings
    check me.git (invalid "git unavailable")
    let patch ← Executor.release repo b mode
    match patch with
    | some patch => Store.appendEvent b.task s!"wip:{patch}"
    | none => pure ()
  | none => Store.deleteBinding b.instanceId

def release (b : BindingRow) (merged : Bool) : Routine Unit :=
  releaseMode b (if merged then .merged else .abandoned)

def cleanupRemotePrefix : String := "cleanup-remote:"

/-- Keep remote ownership and expose Retry; the local part goes on. -/
def cleanupRemote (task : Task) : Routine Unit := do
  let t ← team task.teamId
  match t.repo with
  | none => pure ()
  | some repo =>
    let result ← attempt (Executor.cleanupRemote repo task.id task.mergeCommit.isSome)
    match result with
    | .ok () => pure ()
    | .error e => note task.id (some (cleanupRemotePrefix ++ e.message))

/-- Only background cleanup may defer a local archival failure. -/
def releaseOrDefer (merged reportLocalFailure : Bool) (b : BindingRow) : Routine Unit := do
  let result ← attempt (release b merged)
  match result with
  | .ok () => pure ()
  | .error e => if reportLocalFailure then raise e else pure ()

/-- The holder of a closed task is free once nothing is bound to the task. -/
def freeHolder (task : Task) : Routine Unit := do
  let bindings ← Store.bindings
  if bindings.any (·.task = task.id) then pure ()
  else
    let row ← Store.loadTask task.id
    let row ← orRaise row (invalid "terminal task disappeared")
    if row.task.assignee.isNone then pure ()
    else
      let written ← Store.compareAndSwapTask { row.task with assignee := none } row.version
      check written (invalid "terminal cleanup CAS conflict")

def cleanupTerminal (task : Task) (reportLocalFailure : Bool) : Routine Unit :=
  if !task.status.isClosed then pure ()
  else do
    let row ← Store.loadTask task.id
    if (row.bind (·.progress)).any fun p =>
        p.attentionReason.any fun r => cleanupRemotePrefix.toList.isPrefixOf r.toList then pure ()
    else cleanupRemote task
    let bindings ← Store.bindings
    forEach (releaseOrDefer task.mergeCommit.isSome reportLocalFailure)
      (bindings.filter (·.task = task.id))
    freeHolder task

/-- A task whose stored pipeline cannot go on is closed; its pipeline stays as it was. -/
def failRestore (id : String) : Routine Unit := do
  let row ← Store.loadTask id
  let row ← orRaise row (invalid "task disappeared")
  let task := { row.task with status := .failed }
  let event ← Executor.newId
  let data := (row.progress.map (·.data)).getD ⟨none, none⟩
  let written ← Store.advanceTask task row.version data ("restore-failed:" ++ event)
  check written (invalid "restore failure CAS conflict")
  cleanupTerminal task false

/-- A routine whose failure closes the task, and is reported all the same. -/
def orFail (id : String) (p : Routine Unit) : Routine Unit := do
  let result ← attempt p
  match result with
  | .ok () => pure ()
  | .error e =>
    failRestore id
    raise e

def deliver (recipient id : String) (task : Option String) (body : String) : Routine Unit := do
  let members ← Store.members
  let member ← orRaise (members.find? (·.id = recipient)) (invalid "unknown instance")
  let new : NewMessage := ⟨id, "daemon", recipient, task, body, .queue⟩
  let claim ← Store.claimMessage new
  if claim = .different then raise (invalid "message id already has different content")
  else if claim = .existing .sent || claim = .existing .confirmed then pure ()
  else
    let state ← if member.delivery = "inbox" then pure .sent else Executor.deliver recipient new
    Store.advanceMessage id state

/-- The holder's role is not the stage's, and the stage is not rework: somebody else goes on. -/
def leavesHolder (task : Task) (state : PipelineState) (role : String) (members : List Agent) :
    Bool :=
  state.pendingWorkReason.isNone &&
    task.assignee.any fun holder => members.any fun m => m.id = holder && m.role ≠ role

/-- The holder gives the task up; a committed branch survives. -/
def handOff (task : Task) (state : PipelineState) : Routine Task := do
  let bindings ← Store.bindings
  forEach (releaseMode · (if state.branch.isSome then .handoff else .abandoned))
    (bindings.filter fun b => b.task = task.id && b.kind = .work)
  let row ← Store.loadTask task.id
  let row ← orRaise row (invalid "task disappeared")
  let p ← orRaise row.progress (invalid "pipeline missing")
  let freed := { row.task with assignee := none }
  let written ← Store.advanceTask freed row.version p.data ("handoff:" ++ ticket state)
  check written (invalid "handoff CAS conflict")
  pure freed

/-- The holder exists and does not run: the dispatch waits for it. -/
def holderWaits (task : Task) (review : Bool) : Routine Bool :=
  match task.assignee with
  | some holder =>
    if review then pure false
    else do
      let found ← Store.instance_ holder
      pure (found.any fun r => r.2 ≠ .running)
  | none => pure false

/-- The task an instance holds: an open one it is assigned to, or the one it is bound to. -/
def heldTask (tasks : List Task) (bindings : List BindingRow) (instanceId : String) :
    Option String :=
  ((tasks.find? fun t => t.assignee = some instanceId && !t.status.isClosed).map (·.id)).or
    ((bindings.find? (·.instanceId = instanceId)).map (·.task))

def candidatesOf (task : Task) (state : PipelineState) (members : List Agent)
    (bindings : List BindingRow) (tasks : List Task) (instances : List (Agent × InstanceStatus)) :
    List Candidate :=
  (instances.filter (·.2 = .running)).filterMap fun r =>
    (members.find? fun m => m.id = r.1.id && m.team = task.teamId).map fun m =>
      { instanceId := r.1.id
        teamId := m.team
        role := m.role
        backend := r.1.backend
        heldTask := heldTask tasks bindings r.1.id
        ephemeral := false
        usageAvailable := !state.approvalReviewers.contains r.1.id }

def requestFor (task : Task) (state : PipelineState) (role : String) (review : Bool)
    (members : List Agent) (instances : List (Agent × InstanceStatus)) : AssignmentRequest :=
  let capacity := (members.filter fun m => m.team = task.teamId && m.role = role).length
  let holderBackend :=
    ((instances.find? fun r => some r.1.id = task.assignee).map (·.1.backend)).getD .claude
  { teamId := task.teamId
    role := role
    allowedBackends := allBackends
    availableBackends := []
    roleCapacity := if 0 < capacity then some ⟨0, capacity, capacity⟩ else none
    purpose :=
      if review then .review (task.assignee.getD "") holderBackend
      else match task.assignee with
        | some holder => .rework task.id holder state.branch []
        | none => .newTask }

/-- The reviewer who has this ticket already. -/
def existingReviewer (task : Task) (state : PipelineState) (review : Bool)
    (bindings : List BindingRow) : Option String :=
  (bindings.find? fun b =>
    review && b.task = task.id && b.kind = .review && b.ticket = ticket state).map (·.instanceId)

def decideInstance (task : Task) (state : PipelineState) (role : String) (review : Bool)
    (members : List Agent) (bindings : List BindingRow) : Routine AssignmentDecision := do
  let tasks ← Store.tasks
  let instances ← Store.instances
  pure (match existingReviewer task state review bindings with
    | some instanceId => .assigned instanceId
    | none => choose (requestFor task state role review members instances)
        (candidatesOf task state members bindings tasks instances))

/-- A task without a holder gets one. -/
def takeTask (task : Task) (state : PipelineState) (instanceId : String) : Routine Unit := do
  let row ← Store.loadTask task.id
  let row ← orRaise row (invalid "task disappeared")
  let p ← orRaise row.progress (invalid "pipeline missing")
  let assigned := { row.task with assignee := some instanceId }
  let written ← Store.advanceTask assigned row.version p.data ("assigned:" ++ ticket state)
  check written (invalid "assignment CAS conflict")

/-- The worktree of a dispatch. -/
def worktreeOf (home : String) (repo : Option String) (task : Task) (state : PipelineState)
    (review : Bool) (instanceId : String) : String :=
  if repo.isSome && (!review || state.currentHead.isSome) then
    home ++ "/worktrees/" ++ (if review then task.id ++ "-review" else task.id)
  else home ++ "/workspace/" ++ instanceId

def workBinding (home : String) (task : Task) (state : PipelineState) (instanceId : String) :
    BindingRow where
  instanceId := instanceId
  task := task.id
  kind := .work
  worktree := worktreeOf home (some "") task state false instanceId
  branch := some (state.branch.getD (workBranch task.id (slug task.title)))
  head := none
  ticket := ticket state
  status := .pending

def reviewBinding (home : String) (repo : Option String) (task : Task) (state : PipelineState)
    (instanceId : String) : BindingRow where
  instanceId := instanceId
  task := task.id
  kind := .review
  worktree := worktreeOf home repo task state true instanceId
  branch := none
  head := if repo.isSome then state.currentHead else none
  ticket := ticket state
  status := if repo.isSome && state.currentHead.isSome then .pending else .ready

/-- The binding first, then the worktree. A review without a head, or without a repository, needs
no worktree; work without a repository needs no binding. -/
def bindWorktree (task : Task) (state : PipelineState) (repo : Option String) (review : Bool)
    (instanceId : String) : Routine Unit := do
  let me ← Executor.settings
  if review then
    Store.putBinding (reviewBinding me.home repo task state instanceId)
  else if repo.isSome then
    Store.putBinding (workBinding me.home task state instanceId)
  else pure ()
  match repo.filter fun _ => !review || state.currentHead.isSome with
  | some repo' =>
    check me.git (invalid "real git unavailable")
    Executor.ensure repo' (if review then reviewBinding me.home repo task state instanceId
      else workBinding me.home task state instanceId)
  | none => pure ()

def instructionsOf (state : PipelineState) : String :=
  match state.currentStage with
  | some s =>
    match s.stage with
    | .work _ instructions _ => instructions
    | _ => "Review the committed changes"
  | none => ""

def nextCommand (state : PipelineState) (review : Bool) : String :=
  if review then "review approve"
  else if state.currentStage.any (·.isBranchWork) then "done" else "result"

/-- What an agent is told about a dispatch. -/
def dispatchBody (worktree : String) (task : Task) (state : PipelineState) (review : Bool) :
    String :=
  "dispatch " ++ ticket state ++ "\nkind: " ++ (if review then "review" else "work") ++
    "\ntitle: " ++ task.title ++ "\nworktree: " ++ worktree ++ "\n" ++ instructionsOf state ++
    "\n" ++ workProduct state ++ "\nreason: " ++
    state.pendingWorkReason.getD "initial assignment" ++ "\nnext: agend " ++
    nextCommand state review ++ " " ++ ticket state

def dispatchId (ticket : String) (review : Bool) (instanceId : String) : String :=
  if review then "dispatch:" ++ ticket ++ "/" ++ instanceId else "dispatch:" ++ ticket

def dispatch (task : Task) (state : PipelineState) (review : Bool) (instanceId : String) :
    Routine Unit := do
  if !review && task.assignee.isNone then takeTask task state instanceId else pure ()
  let t ← team task.teamId
  bindWorktree task state t.repo review instanceId
  let me ← Executor.settings
  deliver instanceId (dispatchId (ticket state) review instanceId) (some task.id)
    (dispatchBody (worktreeOf me.home t.repo task state review instanceId) task state review)

def assign (task : Task) (state : PipelineState) (role : String) (review : Bool) :
    Routine Unit := do
  let members ← Store.members
  let task ← if !review && leavesHolder task state role members then handOff task state
    else pure task
  let bindings ← Store.bindings
  let waits ← holderWaits task review
  if waits then pure ()
  else
    let decision ← decideInstance task state role review members bindings
    match decision with
    | .assigned instanceId => dispatch task state review instanceId
    -- Nobody may ever take it: the view asks for the role.
    | .askForRole _ | .queue .noEligibleReviewer =>
      let _ ← Store.loadTask task.id
      pure ()
    | _ => pure ()

/-- A command or forge action. Its result comes back through the queue; so does the failure of a
submit or a check, but not that of a merge. -/
def execute (task : Task) (blockedAs : String) (raises : Bool) (action : PipelineAction) :
    Routine Unit := do
  let result ← attempt (Executor.execute task.id action)
  match result with
  | .ok (some reason) => note task.id (some (blockedAs ++ reason))
  | .ok none => pure ()
  | .error e => if raises then raise e else pure ()

def repoAndGit (task : Task) (missingRepo missingGit : Refusal) : Routine Unit := do
  let t ← team task.teamId
  check t.repo.isSome missingRepo
  let me ← Executor.settings
  check me.git missingGit

def action (task : Task) (state : PipelineState) : PipelineAction → Routine Unit
  | .scheduleTimeout _ _ _ _ => pure ()
  | .assignWork _ _ role => assign task state role false
  | .returnToWork _ _ role _ => assign task state role false
  | .requestApproval _ _ _ _ _ =>
    match state.currentStage.map WorkflowStage.stage with
    | some (.approval (.role role) _ _) => assign task state role true
    | _ => pure ()
  | .submit stageId attempt forge => do
    repoAndGit task (invalid "submit requires repo") (invalid "git unavailable")
    execute task "submit-blocked:" false (.submit stageId attempt forge)
  | .runCommand stageId attempt command head branch changeId timeoutMs timeoutAction => do
    let refusal := invalid "checks require repo, head and git"
    repoAndGit task refusal refusal
    check head.isSome refusal
    execute task "checks-blocked:" false
      (.runCommand stageId attempt command head branch changeId timeoutMs timeoutAction)
  | .merge stageId attempt head => do
    repoAndGit task (invalid "merge requires repo") (invalid "git unavailable")
    execute task "merge-blocked:" true (.merge stageId attempt head)
  | .taskDone _ | .taskCancelled _ _ | .taskFailed _ _ => cleanupTerminal task true
  | .notifyTimeout _ => pure ()
  | .fanout _ _ _ _ _ _ | .cancelFanoutSiblings _ _ | .reassignStage _ =>
    raise (invalid "unsupported pipeline action")

/-- The work that answers a stage, not a review of it. -/
def asksForWork : PipelineAction → Bool
  | .assignWork _ _ _ | .returnToWork _ _ _ _ => true
  | _ => false

/-- The action gives somebody something to do. -/
def dispatches : PipelineAction → Bool
  | .assignWork _ _ _ | .returnToWork _ _ _ _ | .requestApproval _ _ _ _ _ => true
  | _ => false

end Agend.Engine
