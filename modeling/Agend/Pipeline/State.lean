import Agend.Pipeline.MergeGate
import Agend.Pipeline.Workflow

/-! Pure workflow execution: the state of one task, the events it observes, the actions it asks
for, and `step`. A function that pushes onto the source's action vector returns what it pushes. -/
namespace Agend.Pipeline

inductive PipelineStatus where
  | pending
  | running
  | done
  | failed
  | cancelled
  deriving DecidableEq

/-- Done, failed and cancelled pipelines accept no further event. -/
def PipelineStatus.isTerminal : PipelineStatus → Bool
  | done | failed | cancelled => true
  | pending | running => false

/-- A command stage that exited 0 for `head`. -/
structure PassedCheck where
  stageId : String
  head : Option String
  deriving DecidableEq

/-- A completed approval stage; `head` and `patchId` are set only for a head-bound stage. -/
structure ApprovalRecord where
  stageId : String
  head : Option String
  patchId : Option String
  reviewers : List String
  deriving DecidableEq

inductive WorkProduct where
  | branch (branch head patchId : String)
  | result (summary : String) (output : Option String)
  | plan (items : List String)
  deriving DecidableEq, Repr

/-- A head change observed after the merge was requested. -/
inductive PendingHeadChange where
  | commitCreated (head patchId : String)
  | mainAdvanced (rebasedHead patchId : String) (conflict : Bool)
  deriving DecidableEq

/-- Execution state of one task. Attempts are `u32` in the source and natural numbers here. -/
structure PipelineState where
  taskId : String
  pendingWorkReason : Option String
  workflow : Workflow
  stageIndex : Nat
  status : PipelineStatus
  branch : Option String
  currentHead : Option String
  patchId : Option String
  changeId : Option String
  workProduct : Option WorkProduct
  approvalReviewers : List String
  pendingPick : Option String
  attempts : List Nat
  approvals : List ApprovalRecord
  passedChecks : List PassedCheck
  fanoutChildTaskIds : List String
  selectedFanoutChild : Option String
  mergeCommit : Option String
  pendingHeadChanges : List PendingHeadChange
  notifiedTimeout : Option (Nat × Nat)
  deriving DecidableEq

/-- Observed events. A result carries the stage, attempt and head it answers for. -/
inductive PipelineEvent where
  | start
  | workCompleted (stageId : String) (attempt : Nat) (product : WorkProduct)
  | submitted (stageId : String) (attempt : Nat) (changeId : Option String)
  | commandFinished (stageId : String) (attempt : Nat) (head : Option String)
      (exitCode : Option Int)
  | approvalGranted (stageId : String) (attempt : Nat) (reviewer : String) (head : Option String)
      (selectedChild : Option String)
  | changesRequested (stageId : String) (attempt : Nat) (reviewer : String)
      (head : Option String) (reason : String)
  | commitCreated (head patchId : String)
  | mainAdvanced (rebasedHead patchId : String) (conflict : Bool)
  | fanoutCompleted (stageId : String) (attempt : Nat) (childTaskIds : List String)
      (selectedChild : Option String)
  | stageFailed (stageId : String) (attempt : Nat) (reason : String)
  | stageTimedOut (stageId : String) (attempt : Nat)
  | cancel (reason : String)
  | mergeCompleted (stageId : String) (attempt : Nat) (head mergeCommit : String)
  | mergeFailed (stageId : String) (attempt : Nat) (head reason : String)
  deriving DecidableEq, Repr

inductive PipelineAction where
  | assignWork (stageId : String) (attempt : Nat) (role : String)
  | returnToWork (stageId : String) (attempt : Nat) (role reason : String)
  | submit (stageId : String) (attempt : Nat) (forge : String)
  | runCommand (stageId : String) (attempt : Nat) (command : String)
      (head branch changeId : Option String) (timeoutMs : Nat) (timeoutAction : TimeoutAction)
  | requestApproval (stageId : String) (attempt : Nat) (bindHead : Bool) (head : Option String)
      (choices : List String)
  | merge (stageId : String) (attempt : Nat) (head : String)
  | fanout (stageId : String) (attempt : Nat) (source : FanoutSource) (join : FanoutJoin)
      (workProduct : Option WorkProduct) (head : Option String)
  | cancelFanoutSiblings (winnerTaskId : String) (siblingTaskIds : List String)
  | scheduleTimeout (stageId : String) (attempt : Nat) (timeoutMs : Nat) (action : TimeoutAction)
  | notifyTimeout (stageId : String)
  | reassignStage (stageId : String)
  | taskCancelled (stageId : Option String) (reason : String)
  | taskFailed (stageId reason : String)
  | taskDone (mergeCommit : Option String)
  deriving DecidableEq

inductive TransitionError where
  | notPending
  | notRunning
  | wrongStage
  | missingHead
  | mergeGateClosed
  | emptyWorkflow
  | staleResult
  | invalidWorkProduct
  | invalidStageIndex
  | invalidFanoutChildren
  | fanoutSelectionRequired
  | invalidFanoutSelection
  | unexpectedFanoutSelection
  | mergeInFlight
  deriving DecidableEq, Repr

def TransitionError.message : TransitionError → String
  | notPending => "pipeline has already started"
  | notRunning => "pipeline is not running"
  | wrongStage => "event does not match the current stage"
  | missingHead => "the current stage requires a commit head"
  | mergeGateClosed =>
    "merge requires every check to pass and every approval to cover the current head"
  | emptyWorkflow => "workflow has no stages"
  | staleResult =>
    "result does not belong to the current stage, attempt and head; nothing changed"
  | invalidWorkProduct => "work output does not match the current work stage"
  | invalidStageIndex => "pipeline state has an invalid stage index"
  | invalidFanoutChildren => "fanout completion has no unique child task ids"
  | fanoutSelectionRequired => "a fanout winner must be selected for approval"
  | invalidFanoutSelection => "selected task is not a completed fanout child"
  | unexpectedFanoutSelection => "this approval does not select a fanout child"
  | mergeInFlight =>
    "the merge has been requested; only its result or a head change is accepted until then"

/-- A new state and the actions emitted on the way, or why nothing changed. -/
abbrev Outcome := Except TransitionError (PipelineState × List PipelineAction)

/-- Actions pushed before the rest of an outcome. -/
def Outcome.after (actions : List PipelineAction) (outcome : Outcome) : Outcome :=
  outcome.map fun r => (r.1, actions ++ r.2)

namespace Workflow

variable (w : Workflow)

def firstApprovalAfter (fanout : Nat) : Option Nat :=
  ((w.stages.drop (fanout + 1)).findIdx? (·.isKind .approval)).map (· + fanout + 1)

/-- The pick fanout whose winner the approval at `approvalIndex` chooses. -/
def pickFanoutIndexForApproval (approvalIndex : Nat) : Option Nat :=
  if approvalIndex ≤ w.stages.length then
    (List.range approvalIndex).reverse.find? fun i =>
      w.stages[i]?.any (·.isPickFanout) && w.firstApprovalAfter i = some approvalIndex
  else none

def picks (approvalIndex : Nat) : Bool := (w.pickFanoutIndexForApproval approvalIndex).isSome

end Workflow

namespace PipelineState

variable (s : PipelineState)

/-- `unchecked`: a pending task on any workflow. -/
def unchecked (taskId : String) (workflow : Workflow) : PipelineState where
  taskId := taskId
  pendingWorkReason := none
  workflow := workflow
  stageIndex := 0
  status := .pending
  branch := none
  currentHead := none
  patchId := none
  changeId := none
  workProduct := none
  approvalReviewers := []
  pendingPick := none
  attempts := List.replicate workflow.stages.length 0
  approvals := []
  passedChecks := []
  fanoutChildTaskIds := []
  selectedFanoutChild := none
  mergeCommit := none
  pendingHeadChanges := []
  notifiedTimeout := none

def currentStage : Option WorkflowStage := s.workflow.stages[s.stageIndex]?

/-- The current stage's attempt: results for it must carry this number. -/
def attempt : Nat := s.attempts.getD s.stageIndex 0

/-- The current stage has this kind. -/
def atKind (kind : StageKind) : Bool := s.currentStage.any (·.isKind kind)

/-- The merge was requested and its result has not arrived. -/
def mergeInFlight : Bool := s.status = .running && s.atKind .merge

def approvalHeads (stageId : String) : List (Option String) :=
  (s.approvals.filter fun a => a.stageId = stageId).map (·.head)

def passedHeads (stageId : String) : List String :=
  (s.passedChecks.filter fun c => c.stageId = stageId).filterMap (·.head)

def gateFact (stage : WorkflowStage) : Option GateFact :=
  match stage.stage with
  | .command _ => some (.check stage.id (s.passedHeads stage.id))
  | .approval _ _ bindHead => some (.approval stage.id bindHead (s.approvalHeads stage.id))
  | _ => none

/-- The gate for a merge stage, from the records of every stage before it. -/
def mergeGate (mergeIndex : Nat) : MergeGateResult :=
  evaluate s.currentHead ((s.workflow.stages.take mergeIndex).filterMap s.gateFact)
    s.workflow.allowUnreviewed

/-- The stage is an approval and its records satisfy it for the current head. -/
def approvalForStage (stage : WorkflowStage) : Bool :=
  match stage.stage with
  | .approval _ _ bindHead =>
    approvalSatisfied bindHead (s.approvalHeads stage.id) s.currentHead
  | _ => false

/-- The recorded approval belongs to a stage before `index`. -/
def recordedBefore (index : Nat) (stageId : String) : Bool :=
  (s.workflow.stagePosition stageId).any (· < index)

/-- Forget the approvals of the current approval stage below its count. -/
def clearPartial : PipelineState := { s with approvalReviewers := [], pendingPick := none }

def clearFanout : PipelineState :=
  { s with fanoutChildTaskIds := [], selectedFanoutChild := none }

/-- The record picked a fanout winner. -/
def recordPicks (approval : ApprovalRecord) : Bool :=
  (s.workflow.stagePosition approval.stageId).any s.workflow.picks

/-- Drop approval records that no longer count, and a pick made by one of them. -/
def dropApprovals (keep : ApprovalRecord → Bool) : PipelineState :=
  let pickDropped := s.approvals.any fun a => !keep a && s.recordPicks a
  clearPartial { s with
    approvals := s.approvals.filter keep
    selectedFanoutChild := if pickDropped then none else s.selectedFanoutChild }

/-- Drop every record that no longer covers the current head. -/
def invalidateHeadBound : PipelineState :=
  let s' := s.dropApprovals fun a => a.head = none || a.head = s.currentHead
  { s' with passedChecks := s'.passedChecks.filter fun c => c.head = s.currentHead }

/-- Forget checks and approvals recorded at or after `target`. -/
def forgetFrom (target : Nat) : PipelineState :=
  let s' := { s with passedChecks := s.passedChecks.filter fun c => s.recordedBefore target c.stageId }
  s'.dropApprovals fun a => s.recordedBefore target a.stageId

def fanoutAtOrAfter (index : Nat) : Bool := (s.workflow.stages.drop index).any (·.isKind .fanout)

def previousWork (before : Nat) : Option Nat :=
  if before ≤ s.workflow.stages.length then
    lastIndexBefore s.workflow.stages before (·.isKind .work)
  else none

/-- The first check to repeat when the head changes while the task is at `current`: the first
command or head-bound approval after the most recent branch work, up to `current`. -/
def recheckTarget (current : Nat) : Option Nat :=
  match s.workflow.stages[current]? with
  | none => none
  | some stage =>
    if stage.isKind .work then none
    else
      let start := (lastIndexBefore s.workflow.stages current (·.isBranchWork)).elim 0 (· + 1)
      (List.range' start (current + 1 - start)).find? fun i =>
        s.workflow.stages[i]?.any (·.isHeadBound)

def WorkProduct.withHead (head patchId : String) : WorkProduct → WorkProduct
  | .branch branch _ _ => .branch branch head patchId
  | product => product

def recordNewHead (head patchId : String) : PipelineState :=
  invalidateHeadBound { s with
    workProduct := s.workProduct.map (WorkProduct.withHead head patchId)
    currentHead := some head
    patchId := some patchId }

def failTask (stageId reason : String) : PipelineState × List PipelineAction :=
  (clearPartial { s with status := .failed }, [.taskFailed stageId reason])

def cancelTask (stageId : Option String) (reason : String) :
    PipelineState × List PipelineAction :=
  (clearPartial { s with status := .cancelled }, [.taskCancelled stageId reason])

/-- The winner is fixed: its siblings are cancelled and no longer offered. -/
def keepOnlyWinner (winner : String) : PipelineState × List PipelineAction :=
  let siblings := s.fanoutChildTaskIds.filter (· ≠ winner)
  ({ s with fanoutChildTaskIds := [winner], selectedFanoutChild := some winner },
    if siblings.isEmpty then [] else [.cancelFanoutSiblings winner siblings])

/-- What a turn of the entry loop does to the state before it decides to skip or to ask. A
fanout that runs again voids its old children and every later approval. -/
def arrive (index : Nat) (stage : WorkflowStage) : PipelineState :=
  let s' := if stage.isKind .fanout then
      { s.clearFanout with approvals := s.approvals.filter fun a => s.recordedBefore index a.stageId }
    else s
  { s' with stageIndex := index, pendingWorkReason := none, approvalReviewers := [],
            pendingPick := none }

def scheduleFor (stage : WorkflowStage) (attempt : Nat) : PipelineAction :=
  .scheduleTimeout stage.id attempt stage.effectiveTimeoutMs stage.effectiveTimeoutAction

def commandContext : CommandContext := ⟨s.changeId, s.currentHead, s.branch⟩

/-- Open a new attempt of the stage at `index` and ask for its result. -/
def request (index : Nat) (stage : WorkflowStage) : Outcome :=
  let s := { s with attempts := s.attempts.modify index (· + 1) }
  let attempt := s.attempts.getD index 0
  let ask := fun action => Except.ok (s, [scheduleFor stage attempt, action])
  match stage.stage with
  | .work role _ _ => ask (.assignWork stage.id attempt role)
  | .submit forge => ask (.submit stage.id attempt forge)
  | .command command =>
    match expandCommandPlaceholders command s.commandContext with
    | .ok command => ask (.runCommand stage.id attempt command s.currentHead s.branch s.changeId
        stage.effectiveTimeoutMs stage.effectiveTimeoutAction)
    | .error e => .ok (s.failTask stage.id e.message)
  | .approval _ _ bindHead => ask (.requestApproval stage.id attempt bindHead
      (if bindHead then s.currentHead else none)
      (if s.workflow.picks index then s.fanoutChildTaskIds else []))
  | .merge =>
    if !(s.mergeGate index).allowed then .error .mergeGateClosed
    else match s.currentHead with
      | some head => ask (.merge stage.id attempt head)
      | none => .error .missingHead
  | .fanout source join => ask (.fanout stage.id attempt source join s.workProduct s.currentHead)

/-- No stage is left. -/
def finish : PipelineState × List PipelineAction :=
  ({ s with stageIndex := s.workflow.stages.length, status := .done }, [.taskDone s.mergeCommit])

/-- The entry loop over the stages from `index` on; satisfied approvals are skipped. -/
def enterFrom : List WorkflowStage → Nat → PipelineState → Outcome
  | [], _, s => .ok s.finish
  | stage :: rest, index, s =>
    let s := s.arrive index stage
    if s.approvalForStage stage then enterFrom rest (index + 1) s else s.request index stage

def enterStage (index : Nat) : Outcome := enterFrom (s.workflow.stages.drop index) index s

/-- Hand the work stage at `target` back to the task holder; branch and head stay. -/
def returnToWork (target : Nat) (reason : String) : Outcome :=
  let s := s.forgetFrom target
  let s := if s.fanoutAtOrAfter target then s.clearFanout else s
  let s := { s with workProduct := none, pendingWorkReason := some reason }
  match s.workflow.stages[target]? with
  | none => .error .invalidStageIndex
  | some stage =>
    match stage.stage with
    | .work role _ _ =>
      let s := { s with stageIndex := target, attempts := s.attempts.modify target (· + 1) }
      let attempt := s.attempts.getD target 0
      .ok (s, [scheduleFor stage attempt, .returnToWork stage.id attempt role reason])
    | _ => .error .wrongStage

/-- The work stage a failure of `failed` at `index` goes back to. -/
def failureTarget (index : Nat) (failed : WorkflowStage) : Option Nat :=
  let explicit := failed.onFail.bind fun target =>
    (s.workflow.stages.take index).findIdx? fun st => st.id = target && st.isKind .work
  let default := if failed.isKind .command || failed.isKind .approval then
      s.previousWork index else none
  explicit.or default

def failStage (failedIndex : Nat) (reason : String) : Outcome :=
  match s.workflow.stages[failedIndex]? with
  | none => .error .invalidStageIndex
  | some failed =>
    match s.failureTarget failedIndex failed with
    | some target => s.returnToWork target reason
    | none => .ok (s.failTask failed.id reason)

/-- An in-stage invalidation starts a new attempt of a stage that collects results. -/
def restartIfCollected : Outcome :=
  if (s.atKind .approval || s.atKind .fanout) && !s.mergeInFlight then s.enterStage s.stageIndex
  else .ok (s, [])

def recheckForNewHead : Outcome :=
  match s.recheckTarget s.stageIndex with
  | some target => s.enterStage target
  | none => s.restartIfCollected

/-- Approvals given for `oldHead` with the approved patch move to the rebased head. -/
def carryApprovals (oldHead approvedPatch newHead : String) : PipelineState :=
  { s with approvals := s.approvals.map fun a =>
      if a.head = some oldHead && a.patchId = some approvedPatch then
        { a with head := some newHead } else a }

/-- The patch of the first approval given for `oldHead`, else the current patch. -/
def approvedPatch (oldHead : String) : Option String :=
  ((s.approvals.find? fun a => a.head = some oldHead).bind (·.patchId)).or s.patchId

def conflictReason (conflict : Bool) : String :=
  if conflict then "main advanced and the rebase conflicted"
  else "main advanced and the rebase changed the patch"

def mainAdvanced (rebasedHead patchId : String) (conflict : Bool) : Outcome :=
  match s.currentStage with
  | none => .error .invalidStageIndex
  | some stage =>
    if s.branch = none then .ok (s, [])
    else if !conflict && s.currentHead = some rebasedHead then .ok (s, [])
    else if stage.isKind .work || stage.isKind .submit then
      if conflict then .ok (s, [])
      else (s.recordNewHead rebasedHead patchId).recheckForNewHead
    else match s.currentHead with
      | none => .error .missingHead
      | some oldHead =>
        match s.approvedPatch oldHead with
        | none => .error .missingHead
        | some approved =>
          match approvalAfterRebase ⟨conflict, some rebasedHead, approved,
              if conflict then none else some patchId⟩ with
          | .keep newHead =>
            let s := clearPartial { s with passedChecks := [] }
            ((s.carryApprovals oldHead approved newHead).recordNewHead newHead
              patchId).recheckForNewHead
          | .returnToWork =>
            let s' := if conflict then s.invalidateHeadBound
              else s.recordNewHead rebasedHead patchId
            match s'.previousWork s.stageIndex with
            | some work => s'.returnToWork work (conflictReason conflict)
            | none => .ok (s'.failTask stage.id (conflictReason conflict))

def applyHeadChange (change : PendingHeadChange) : Outcome :=
  if s.status ≠ .running then .ok (s, [])
  else match change with
    | .commitCreated head patchId =>
      if s.currentHead = some head then .ok (s, [])
      else (s.recordNewHead head patchId).recheckForNewHead
    | .mainAdvanced rebasedHead patchId conflict => s.mainAdvanced rebasedHead patchId conflict

/-- Apply every pending change; only the last change that did something speaks. -/
def applyPending : List PendingHeadChange → List PipelineAction → PipelineState → Outcome
  | [], last, s => .ok (s, last)
  | change :: rest, last, s =>
    match s.applyHeadChange change with
    | .error e => .error e
    | .ok (s', actions) => applyPending rest (if actions.isEmpty then last else actions) s'

/-- The forge did not merge: apply the head changes seen meanwhile, or repeat the checks. -/
def mergeFailed : Outcome :=
  match applyPending s.pendingHeadChanges [] { s with pendingHeadChanges := [] } with
  | .error e => .error e
  | .ok (s', actions) =>
    if s'.mergeInFlight then
      match s'.recheckTarget s'.stageIndex with
      | none => .error .mergeGateClosed
      | some target => (s'.enterStage target).after actions
    else .ok (s', actions)

def ensureRunning : Except TransitionError Unit :=
  if s.status ≠ .running then .error .notRunning
  else if s.currentStage = none then .error .invalidStageIndex
  else .ok ()

def ensureCurrentStage (kind : StageKind) : Except TransitionError Unit :=
  match s.ensureRunning with
  | .error e => .error e
  | .ok () => if s.atKind kind then .ok () else .error .wrongStage

/-- `bind_head` and `count` of the current approval stage. -/
def currentApproval : Except TransitionError (Bool × Nat) :=
  match s.ensureCurrentStage .approval with
  | .error e => .error e
  | .ok () =>
    match s.currentStage.map WorkflowStage.stage with
    | some (.approval _ count bindHead) =>
      if bindHead && s.currentHead = none then .error .missingHead else .ok (bindHead, count)
    | _ => .error .wrongStage

end PipelineState

/-- The identity a result event carries; `head` is set when the event names one. -/
structure Identity where
  stageId : String
  attempt : Nat
  head : Option (Option String)
  deriving DecidableEq

def PipelineEvent.identity : PipelineEvent → Option Identity
  | .workCompleted stageId attempt _ => some ⟨stageId, attempt, none⟩
  | .submitted stageId attempt _ => some ⟨stageId, attempt, none⟩
  | .fanoutCompleted stageId attempt _ _ => some ⟨stageId, attempt, none⟩
  | .stageFailed stageId attempt _ => some ⟨stageId, attempt, none⟩
  | .stageTimedOut stageId attempt => some ⟨stageId, attempt, none⟩
  | .commandFinished stageId attempt head _ => some ⟨stageId, attempt, some head⟩
  | .approvalGranted stageId attempt _ head _ => some ⟨stageId, attempt, some head⟩
  | .changesRequested stageId attempt _ head _ => some ⟨stageId, attempt, some head⟩
  | .mergeCompleted stageId attempt head _ => some ⟨stageId, attempt, some (some head)⟩
  | .mergeFailed stageId attempt head _ => some ⟨stageId, attempt, some (some head)⟩
  | .start | .commitCreated _ _ | .mainAdvanced _ _ _ | .cancel _ => none

/-- The events an in-flight merge accepts. -/
def PipelineEvent.answersMerge : PipelineEvent → Bool
  | .mergeCompleted _ _ _ _ | .mergeFailed _ _ _ _ | .commitCreated _ _ | .mainAdvanced _ _ _ =>
    true
  | _ => false

namespace PipelineState

variable (s : PipelineState)

/-- The staleness rule: the current stage, attempt and, when head-bound, the current head. -/
def checkIdentity (identity : Identity) : Except TransitionError Unit :=
  match s.ensureRunning with
  | .error e => .error e
  | .ok () =>
    match s.currentStage with
    | none => .error .invalidStageIndex
    | some stage =>
      if stage.id ≠ identity.stageId || s.attempt ≠ identity.attempt then .error .staleResult
      else if stage.needsHead && identity.head.any (· ≠ s.currentHead) then .error .staleResult
      else .ok ()

/-- The product has the kind the work stage asks for. -/
def productMatches : WorkOutput → WorkProduct → Bool
  | .branch, .branch _ _ _ => true
  | .result, .result _ _ => true
  | .plan, .plan _ => true
  | _, _ => false

def onStart : Outcome :=
  if s.status ≠ .pending then .error .notPending
  else if s.workflow.stages.isEmpty then .error .emptyWorkflow
  else { s with status := .running }.enterStage 0

/-- The records a work product leaves before the next stage is entered. -/
def takeProduct (product : WorkProduct) : PipelineState :=
  match product with
  | .branch branch head patchId =>
    let s' := if s.currentHead ≠ some head then
        invalidateHeadBound { s with currentHead := some head } else s
    { s' with branch := some branch, currentHead := some head, patchId := some patchId,
              workProduct := some product }
  | .plan _ =>
    let s' := if s.fanoutAtOrAfter s.stageIndex then s.clearFanout else s
    { s' with workProduct := some product }
  | .result _ _ => { s with workProduct := some product }

def onWorkCompleted (product : WorkProduct) : Outcome :=
  match s.currentStage.map WorkflowStage.stage with
  | some (.work _ _ output) =>
    if !productMatches output product then .error .invalidWorkProduct
    else (s.takeProduct product).enterStage (s.stageIndex + 1)
  | _ => .error .wrongStage

def onSubmitted (changeId : Option String) : Outcome :=
  match s.ensureCurrentStage .submit with
  | .error e => .error e
  | .ok () => { s with changeId := changeId }.enterStage (s.stageIndex + 1)

def recordPass (stageId : String) (head : Option String) : PipelineState :=
  if s.passedChecks.contains ⟨stageId, head⟩ then s
  else { s with passedChecks := s.passedChecks ++ [⟨stageId, head⟩] }

def commandFailure (stageId : String) : Option Int → String
  | some code => s!"command `{stageId}` failed with exit code {code}"
  | none => s!"command `{stageId}` did not exit normally"

def onCommandFinished (stageId : String) (head : Option String) (exitCode : Option Int) : Outcome :=
  match s.ensureCurrentStage .command with
  | .error e => .error e
  | .ok () =>
    if exitCode = some 0 then (s.recordPass stageId head).enterStage (s.stageIndex + 1)
    else s.failStage s.stageIndex (commandFailure stageId exitCode)

/-- The winner of a pick after one more reviewer: it must agree with the ones so far. -/
def choosePick (selectedChild : Option String) : Except TransitionError PipelineState :=
  if s.workflow.picks s.stageIndex then
    match selectedChild.or s.pendingPick with
    | none => .error .fanoutSelectionRequired
    | some winner =>
      if !s.fanoutChildTaskIds.contains winner || s.pendingPick.any (· ≠ winner) then
        .error .invalidFanoutSelection
      else .ok { s with pendingPick := some winner }
  else if selectedChild.isSome then .error .unexpectedFanoutSelection
  else .ok s

/-- Replace the stage's approval record by the reviewers collected in this attempt. -/
def recordApproval (stageId : String) (bindHead : Bool) (head : Option String) : PipelineState :=
  { s with
    approvals := (s.approvals.filter fun a => a.stageId ≠ stageId) ++
      [⟨stageId, if bindHead then head else none, if bindHead then s.patchId else none,
        s.approvalReviewers⟩]
    approvalReviewers := [] }

/-- The approval count is met: record it, fix a picked winner and go on. -/
def completeApproval (stageId : String) (bindHead : Bool) (head : Option String) : Outcome :=
  let next := s.recordApproval stageId bindHead head
  if s.workflow.picks s.stageIndex then
    match next.pendingPick with
    | none => .error .fanoutSelectionRequired
    | some winner =>
      let r := { next with pendingPick := none }.keepOnlyWinner winner
      (r.1.enterStage (s.stageIndex + 1)).after r.2
  else next.enterStage (s.stageIndex + 1)

def onApprovalGranted (stageId reviewer : String) (head selectedChild : Option String) : Outcome :=
  match s.currentApproval with
  | .error e => .error e
  | .ok (bindHead, count) =>
    -- A reviewer counted in this attempt already: a duplicate.
    if s.approvalReviewers.contains reviewer then .error .staleResult
    else match s.choosePick selectedChild with
      | .error e => .error e
      | .ok next =>
        let next := { next with approvalReviewers := next.approvalReviewers ++ [reviewer] }
        if next.approvalReviewers.length < count then .ok (next, [])
        else next.completeApproval stageId bindHead head

def onChangesRequested (reviewer reason : String) : Outcome :=
  match s.currentApproval with
  | .error e => .error e
  | .ok _ => s.failStage s.stageIndex s!"changes requested by {reviewer}: {reason}"

def onCommitCreated (head patchId : String) : Outcome :=
  match s.ensureRunning with
  | .error e => .error e
  | .ok () =>
    if !s.workflow.stages.any (·.isBranchWork) then .error .wrongStage
    else if s.currentHead = some head then
      -- The branch is back at the sent head: the pending changes no longer exist.
      if s.mergeInFlight then .ok ({ s with pendingHeadChanges := [] }, []) else .ok (s, [])
    else if s.mergeInFlight then
      .ok ({ s with pendingHeadChanges := s.pendingHeadChanges ++ [.commitCreated head patchId] },
        [])
    else s.applyHeadChange (.commitCreated head patchId)

def onMainAdvanced (rebasedHead patchId : String) (conflict : Bool) : Outcome :=
  match s.ensureRunning with
  | .error e => .error e
  | .ok () =>
    if !s.workflow.stages.any (·.isKind .merge) then .error .wrongStage
    else if s.mergeInFlight then
      .ok ({ s with pendingHeadChanges :=
        s.pendingHeadChanges ++ [.mainAdvanced rebasedHead patchId conflict] }, [])
    else s.applyHeadChange (.mainAdvanced rebasedHead patchId conflict)

def onFanoutCompleted (childTaskIds : List String) (selectedChild : Option String) : Outcome :=
  match s.ensureCurrentStage .fanout with
  | .error e => .error e
  | .ok () =>
    if childTaskIds.isEmpty || childTaskIds.any (·.isEmpty) || hasDuplicate childTaskIds then
      .error .invalidFanoutChildren
    else match s.currentStage.map WorkflowStage.stage with
      | some (.fanout _ join) =>
        let next := { s with selectedFanoutChild := none, fanoutChildTaskIds := childTaskIds }
        match join with
        | .first =>
          match selectedChild with
          | none => .error .fanoutSelectionRequired
          | some winner =>
            if !childTaskIds.contains winner then .error .invalidFanoutSelection
            else
              let r := next.keepOnlyWinner winner
              (r.1.enterStage (s.stageIndex + 1)).after r.2
        | .all | .pick =>
          if selectedChild.isSome then .error .unexpectedFanoutSelection
          else next.enterStage (s.stageIndex + 1)
      | _ => .error .wrongStage

def onStageTimedOut (stageId : String) : Outcome :=
  match s.currentStage with
  | none => .error .invalidStageIndex
  | some stage =>
    match stage.effectiveTimeoutAction with
    | .notify =>
      -- This attempt's timeout was reported already: a duplicate.
      if s.notifiedTimeout = some (s.stageIndex, s.attempt) then .error .staleResult
      else .ok ({ s with notifiedTimeout := some (s.stageIndex, s.attempt) },
        [.notifyTimeout stageId])
    | .reassign => (s.enterStage s.stageIndex).after [.reassignStage stageId]
    | .cancel => .ok (s.cancelTask (some stageId) s!"stage `{stageId}` timed out")

def onCancel (reason : String) : Outcome :=
  match s.status with
  | .pending => .ok (s.cancelTask none reason)
  | .running =>
    match s.ensureRunning with
    | .error e => .error e
    | .ok () => .ok (s.cancelTask (s.currentStage.map (·.id)) reason)
  | _ => .error .notRunning

def onMergeFailed : Outcome :=
  match s.ensureCurrentStage .merge with
  | .error e => .error e
  | .ok () => s.mergeFailed

def onMergeCompleted (mergeCommit : String) : Outcome :=
  match s.ensureCurrentStage .merge with
  | .error e => .error e
  | .ok () =>
    if !(s.mergeGate s.stageIndex).allowed then .error .mergeGateClosed
    else .ok ({ s with mergeCommit := some mergeCommit, pendingHeadChanges := [],
                       status := .done }, [.taskDone (some mergeCommit)])

/-- One event, after the in-flight and staleness rules let it pass. -/
def handle : PipelineEvent → Outcome
  | .start => s.onStart
  | .workCompleted _ _ product => s.onWorkCompleted product
  | .submitted _ _ changeId => s.onSubmitted changeId
  | .commandFinished stageId _ head exitCode => s.onCommandFinished stageId head exitCode
  | .approvalGranted stageId _ reviewer head selectedChild =>
    s.onApprovalGranted stageId reviewer head selectedChild
  | .changesRequested _ _ reviewer _ reason => s.onChangesRequested reviewer reason
  | .commitCreated head patchId => s.onCommitCreated head patchId
  | .mainAdvanced rebasedHead patchId conflict => s.onMainAdvanced rebasedHead patchId conflict
  | .fanoutCompleted _ _ childTaskIds selectedChild =>
    s.onFanoutCompleted childTaskIds selectedChild
  | .stageFailed _ _ reason => s.failStage s.stageIndex reason
  | .stageTimedOut stageId _ => s.onStageTimedOut stageId
  | .cancel reason => s.onCancel reason
  | .mergeFailed _ _ _ _ => s.onMergeFailed
  | .mergeCompleted _ _ _ mergeCommit => s.onMergeCompleted mergeCommit

end PipelineState

/-- Apply one observed event: a new state and the side effects to run. -/
def step (s : PipelineState) (event : PipelineEvent) : Outcome :=
  if s.mergeInFlight && !event.answersMerge then .error .mergeInFlight
  else match event.identity with
    | none => s.handle event
    | some identity =>
      match s.checkIdentity identity with
      | .error e => .error e
      | .ok () => s.handle event

end Agend.Pipeline
