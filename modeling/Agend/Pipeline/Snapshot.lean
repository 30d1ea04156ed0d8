import Mathlib.Algebra.Group.Nat.Defs
import Agend.Pipeline.Witness

/-! Restart: the stored snapshot, what a restored one must satisfy, and the requests rebuilt
from a state. -/
namespace Agend.Pipeline

/-- Execution data without the separately versioned workflow. -/
structure PipelineSnapshot where
  taskId : String
  pendingWorkReason : Option String
  stageIndex : Nat
  status : PipelineStatus
  branch : Option String
  currentHead : Option String
  patchId : Option String
  changeId : Option String
  workProduct : Option WorkProduct
  approvalReviewers : List String
  pendingPick : Option String
  attempts : List Nat
  approvals : List ApprovalRecord
  passedChecks : List PassedCheck
  fanoutChildTaskIds : List String
  selectedFanoutChild : Option String
  mergeCommit : Option String
  pendingHeadChanges : List PendingHeadChange
  notifiedTimeout : Option (Nat × Nat)
  deriving DecidableEq

/-- `u32::MAX`, the attempt no snapshot may hold. -/
def attemptLimit : Nat := 2 ^ 32 - 1

namespace PipelineState

variable (s : PipelineState)

def snapshot : PipelineSnapshot where
  taskId := s.taskId
  pendingWorkReason := s.pendingWorkReason
  stageIndex := s.stageIndex
  status := s.status
  branch := s.branch
  currentHead := s.currentHead
  patchId := s.patchId
  changeId := s.changeId
  workProduct := s.workProduct
  approvalReviewers := s.approvalReviewers
  pendingPick := s.pendingPick
  attempts := s.attempts
  approvals := s.approvals
  passedChecks := s.passedChecks
  fanoutChildTaskIds := s.fanoutChildTaskIds
  selectedFanoutChild := s.selectedFanoutChild
  mergeCommit := s.mergeCommit
  pendingHeadChanges := s.pendingHeadChanges
  notifiedTimeout := s.notifiedTimeout

def ofSnapshot (snapshot : PipelineSnapshot) (w : Workflow) : PipelineState where
  taskId := snapshot.taskId
  pendingWorkReason := snapshot.pendingWorkReason
  workflow := w
  stageIndex := snapshot.stageIndex
  status := snapshot.status
  branch := snapshot.branch
  currentHead := snapshot.currentHead
  patchId := snapshot.patchId
  changeId := snapshot.changeId
  workProduct := snapshot.workProduct
  approvalReviewers := snapshot.approvalReviewers
  pendingPick := snapshot.pendingPick
  attempts := snapshot.attempts
  approvals := snapshot.approvals
  passedChecks := snapshot.passedChecks
  fanoutChildTaskIds := snapshot.fanoutChildTaskIds
  selectedFanoutChild := snapshot.selectedFanoutChild
  mergeCommit := snapshot.mergeCommit
  pendingHeadChanges := snapshot.pendingHeadChanges
  notifiedTimeout := snapshot.notifiedTimeout

/-- A task id names a directory and a branch component. -/
def legalTaskId (taskId : String) : Bool :=
  taskId ≠ "" && !taskId.toList.contains '/' && !taskId.toList.contains '\x00'

def invalidPosition : Bool :=
  let len := s.workflow.stages.length
  s.attempts.length ≠ len || s.attempts.contains attemptLimit || decide (len < s.stageIndex) ||
    (s.stageIndex = len && s.status ≠ .done) || (s.status = .running && s.attempt = 0) ||
    (s.status = .pending && (s.stageIndex ≠ 0 || s.attempts.any (· ≠ 0)))

def unknownCheck : Bool :=
  s.passedChecks.any fun c =>
    !s.workflow.stages.any fun st => st.id = c.stageId && st.isKind .command

def duplicateRecord : Bool :=
  hasDuplicate (s.passedChecks.map (·.stageId)) || hasDuplicate (s.approvals.map (·.stageId))

def badReviewers (reviewers : List String) : Bool :=
  reviewers.any (·.isEmpty) || hasDuplicate reviewers

/-- Why one approval record cannot be restored. -/
def approvalViolation (approval : ApprovalRecord) : Option String :=
  match s.workflow.stages.find? fun st => st.id = approval.stageId with
  | none => some "unknown approval stage in snapshot"
  | some st =>
    match st.stage with
    | .approval _ count bindHead =>
      if approval.reviewers.length ≠ count || badReviewers approval.reviewers ||
          (bindHead && (approval.head.isNone || approval.patchId.isNone)) ||
          (!bindHead && (approval.head.isSome || approval.patchId.isSome)) then
        some "invalid approval record in snapshot"
      else none
    | _ => some "approval recorded for a non-approval stage"

def inconsistentRecords : Bool :=
  badReviewers s.approvalReviewers || s.currentHead.isSome ≠ s.patchId.isSome ||
    (!s.pendingHeadChanges.isEmpty && !s.mergeInFlight)

/-- The current stage is an approval whose count the collected reviewers have not met. -/
def collectsMore : Bool :=
  s.currentStage.any fun st =>
    match st.stage with
    | .approval _ count _ => s.approvalReviewers.length < count
    | _ => false

def strayPartial : Bool :=
  s.status = .running && !s.approvalReviewers.isEmpty && !s.collectsMore

def strayReason : Bool := s.pendingWorkReason.isSome && !s.atKind .work

def pendingRecords : Bool :=
  s.status = .pending &&
    (s.branch.isSome || s.currentHead.isSome || s.pendingWorkReason.isSome ||
      s.selectedFanoutChild.isSome || s.workProduct.isSome || !s.approvals.isEmpty ||
      !s.passedChecks.isEmpty || !s.approvalReviewers.isEmpty || s.changeId.isSome ||
      s.mergeCommit.isSome || s.pendingPick.isSome || !s.fanoutChildTaskIds.isEmpty)

def badTimeout : Bool :=
  s.notifiedTimeout.any fun t =>
    decide (s.workflow.stages.length ≤ t.1) || t.2 = 0 || decide (s.attempts.getD t.1 0 < t.2)

/-- The checks on a done state. -/
def restoreDone : Except String PipelineState :=
  match s.doneInvariants with
  | .error reason => .error reason
  | .ok () =>
    if s.workflow.stages.any (·.isKind .merge) && s.mergeCommit.isNone then
      .error "done snapshot has no merge record"
    else .ok s

/-- Validate restored data before any action can be dispatched. -/
def restore (snapshot : PipelineSnapshot) (w : ValidatedWorkflow) : Except String PipelineState :=
  let s := ofSnapshot snapshot w.workflow
  if !legalTaskId s.taskId then .error "invalid task id in snapshot"
  else if s.invalidPosition then .error "invalid stage position or attempts in snapshot"
  else if s.unknownCheck then .error "unknown check stage in snapshot"
  else if s.duplicateRecord then .error "duplicate execution record in snapshot"
  else match s.approvals.findSome? s.approvalViolation with
    | some reason => .error reason
    | none =>
      if s.inconsistentRecords then .error "inconsistent execution records in snapshot"
      else if s.strayPartial then
        .error "partial reviewers do not belong to the current approval"
      else if s.strayReason then .error "rework reason outside a work stage"
      else if s.pendingRecords then .error "pending snapshot contains execution records"
      else if s.badTimeout then .error "invalid timeout identity in snapshot"
      else if s.mergeInFlight && !(s.mergeGate s.stageIndex).allowed then
        .error "restored merge gate is closed"
      else if s.status = .done then s.restoreDone
      else .ok s

/-- A rebuilt request for work under rework carries its reason again. -/
def withReason (reason : Option String) (action : PipelineAction) : PipelineAction :=
  match reason, action with
  | some reason, .assignWork stageId attempt role => .returnToWork stageId attempt role reason
  | _, action => action

def isScheduleTimeout : PipelineAction → Bool
  | .scheduleTimeout _ _ _ _ => true
  | _ => false

/-- Rebuild the unanswered requests by entering the current stage of a copy again. -/
def outstandingActions : List PipelineAction :=
  if s.status ≠ .running then []
  else match s.currentStage with
    | none => []
    | some stage =>
      let copy := { s with
        attempts := s.attempts.modify s.stageIndex (· - 1)
        approvals := s.approvals.filter fun a => a.stageId ≠ stage.id }
      match copy.enterStage s.stageIndex with
      | .error _ => []
      | .ok (_, actions) =>
        let actions := if s.notifiedTimeout = some (s.stageIndex, s.attempt) then
            actions.filter fun a => !isScheduleTimeout a
          else actions
        actions.map (withReason s.pendingWorkReason)

end PipelineState

end Agend.Pipeline
