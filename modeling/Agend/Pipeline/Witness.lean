import Agend.Pipeline.State

/-! The completability witness: scripted runs of `step` that a workflow must finish before it is
accepted, and the accepted workflows. -/
namespace Agend.Pipeline

namespace PipelineState

variable (s : PipelineState)

/-- Rust's debug rendering of an optional head that needs no escapes. -/
def debugHead : Option String → String
  | none => "None"
  | some head => "Some(\"" ++ head ++ "\")"

def doneStageViolation (stage : WorkflowStage) : Option String :=
  match stage.stage with
  | .command _ =>
    if s.passedChecks.any fun c => c.stageId = stage.id && c.head = s.currentHead then none
    else some s!"done but `{stage.id}` never passed on {debugHead s.currentHead}"
  | .approval _ _ true =>
    if s.approvals.any fun a => a.stageId = stage.id && a.head = s.currentHead then none
    else some s!"done but `{stage.id}` does not cover {debugHead s.currentHead}"
  | _ => none

def lastFanout (w : Workflow) : Option WorkflowStage :=
  w.stages.reverse.find? (·.isKind .fanout)

/-- What must hold when a task is done: every command passed and every head-bound approval
covers the final head, and the last pick fanout has a winner among its children. -/
def doneInvariants : Except String Unit :=
  match s.workflow.stages.findSome? s.doneStageViolation with
  | some reason => .error reason
  | none =>
    match lastFanout s.workflow with
    | none => .ok ()
    | some stage =>
      if stage.isPickFanout && !s.selectedFanoutChild.any s.fanoutChildTaskIds.contains then
        .error s!"done without a pick among the children of `{stage.id}`"
      else .ok ()

end PipelineState

inductive Disturbance where
  | fail
  | newCommit
  deriving DecidableEq

namespace Witness

def head (counter : Nat) : String := s!"witness-head-{counter}"

def patch (counter : Nat) : String := s!"witness-patch-{counter}"

def reviewer (index : Nat) : String := s!"witness-reviewer-{index}"

/-- The child a scripted approval selects where a pick is due. -/
def selectedChild (s : PipelineState) : Option String :=
  if s.workflow.picks s.stageIndex then s.selectedFanoutChild.or s.fanoutChildTaskIds.head?
  else none

/-- The reviewers of a scripted approval: only those not yet counted in this attempt. -/
def freshReviewers (s : PipelineState) (count : Nat) : List String :=
  (((List.range (count * 2)).map reviewer).filter
    fun r => !s.approvalReviewers.contains r).take (count - s.approvalReviewers.length)

/-- The events that complete the current stage, and the head counter after them. -/
def successEvents (s : PipelineState) (counter : Nat) : List PipelineEvent × Nat :=
  if s.status = .pending then ([.start], counter)
  else match s.currentStage with
    | none => ([], counter)
    | some stage =>
      match stage.stage with
      | .work _ _ .branch =>
        ([.workCompleted stage.id s.attempt (.branch "witness-branch" (head (counter + 1))
          (patch (counter + 1)))], counter + 1)
      | .work _ _ .result => ([.workCompleted stage.id s.attempt (.result "witness" none)], counter)
      | .work _ _ .plan => ([.workCompleted stage.id s.attempt (.plan ["witness-item"])], counter)
      -- The local forge returns no change id.
      | .submit forge => ([.submitted stage.id s.attempt
          (if forge ≠ "local" then some "witness-change" else none)], counter)
      | .command _ => ([.commandFinished stage.id s.attempt s.currentHead (some 0)], counter)
      | .approval _ count _ =>
        ((freshReviewers s count).map fun r =>
          .approvalGranted stage.id s.attempt r s.currentHead (selectedChild s), counter)
      | .fanout source join =>
        let children := match source with
          | .listed children => children
          | .workOutput => ["witness-child-1", "witness-child-2"]
        ([.fanoutCompleted stage.id s.attempt children
          (if join = .first then children.head? else none)], counter)
      | .merge =>
        ([.mergeCompleted stage.id s.attempt (s.currentHead.getD "") "witness-merge"], counter)

def disturbanceEvents (s : PipelineState) (kind : Disturbance) (counter : Nat) :
    List PipelineEvent × Nat :=
  match s.currentStage with
  | none => ([], counter)
  | some stage =>
    match kind with
    | .fail =>
      if stage.isKind .command then
        ([.commandFinished stage.id s.attempt s.currentHead (some 1)], counter)
      else ([.changesRequested stage.id s.attempt "witness-reviewer" s.currentHead "witness"],
        counter)
    | .newCommit =>
      let created := PipelineEvent.commitCreated (head (counter + 1)) (patch (counter + 1))
      if stage.isKind .merge then
        ([created, .mergeFailed stage.id s.attempt (s.currentHead.getD "") "witness"], counter + 1)
      else ([created], counter + 1)

/-- Feed a script to `step`; the actions are not looked at. -/
def play : PipelineState → List PipelineEvent → Except TransitionError PipelineState
  | s, [] => .ok s
  | s, event :: rest =>
    match step s event with
    | .error e => .error e
    | .ok (s', _) => play s' rest

def stuck (scenario : String) (s : PipelineState) (reason : String) : WorkflowError :=
  .notCompletable scenario ((s.currentStage.map (·.id)).getD "<end>") reason

def endedAs : PipelineStatus → String
  | .failed => "the task ended as Failed"
  | _ => "the task ended as Cancelled"

/-- An in-stage invalidation that did not start a new attempt. -/
def invalidatedInPlace (before after : PipelineState) : Bool :=
  let collecting := before.atKind .approval || before.atKind .fanout
  let collected := !before.approvalReviewers.isEmpty || before.pendingPick.isSome
  after.status = .running && after.stageIndex = before.stageIndex && !before.mergeInFlight &&
    ((collecting && after.currentHead ≠ before.currentHead) ||
      (collected && after.approvalReviewers.isEmpty && after.pendingPick.isNone)) &&
    after.attempt ≤ before.attempt

/-- A result accepted again after the stage has moved on. -/
def acceptedDuplicate (before after : PipelineState) (events : List PipelineEvent) :
    Option PipelineEvent :=
  if (after.stageIndex, after.attempt, after.status) =
      (before.stageIndex, before.attempt, before.status) then none
  else events.find? fun e => e.identity.isSome && (step after e).isOk

/-- The events of one turn: the disturbance at its stage, once, else the success script. -/
def turnEvents (disturbance : Option (Nat × Disturbance)) (disturbed : Bool) (s : PipelineState)
    (counter : Nat) : (List PipelineEvent × Nat) × Bool :=
  match disturbance with
  | some (index, kind) =>
    if !disturbed && s.status = .running && s.stageIndex = index then
      (disturbanceEvents s kind counter, true)
    else (successEvents s counter, disturbed)
  | none => (successEvents s counter, disturbed)

def loop (scenario : String) (disturbance : Option (Nat × Disturbance)) :
    Nat → Bool → Nat → PipelineState → Except WorkflowError Unit
  | 0, _, _, s => .error (stuck scenario s "no progress within the bound")
  | turns + 1, disturbed, counter, s =>
    match s.status with
    | .done => s.doneInvariants.mapError (stuck scenario s)
    | .failed | .cancelled => .error (stuck scenario s (endedAs s.status))
    | .pending | .running =>
      let ((events, counter'), disturbed') := turnEvents disturbance disturbed s counter
      match play s events with
      | .error e => .error (stuck scenario s e.message)
      | .ok s' =>
        if invalidatedInPlace s s' then
          .error (stuck scenario s' "the current stage was invalidated without a new attempt")
        else match acceptedDuplicate s s' events with
          | some event =>
            .error (stuck scenario s' s!"a duplicate result was accepted: {reprStr event}")
          | none => loop scenario disturbance turns disturbed' counter' s'

def run (w : Workflow) (disturbance : Option (Nat × Disturbance)) (scenario : String) :
    Except WorkflowError Unit :=
  loop scenario disturbance (w.stages.length * 8 + 16) false 0 (.unchecked "witness" w)

/-- The first error of a list of runs. -/
def all : List (Except WorkflowError Unit) → Except WorkflowError Unit
  | [] => .ok ()
  | .ok () :: rest => all rest
  | .error e :: _ => .error e

def failureRuns (w : Workflow) : List (Except WorkflowError Unit) :=
  (w.stages.zipIdx.filter fun p => p.1.isKind .command || p.1.isKind .approval).map fun p =>
    run w (some (p.2, .fail)) s!"rework after `{p.1.id}` fails"

def commitRuns (w : Workflow) : List (Except WorkflowError Unit) :=
  (w.stages.zipIdx.filter fun p => (w.stages.take p.2).any (·.isBranchWork)).map fun p =>
    run w (some (p.2, .newCommit)) s!"new commit at `{p.1.id}`"

end Witness

/-- The success script, then one failure per check and review, then one new commit per stage
with a branch before it: every run must reach done within a bound. -/
def completabilityWitness (w : Workflow) : Except WorkflowError Unit :=
  Witness.all (Witness.run w none "success script" ::
    (Witness.failureRuns w ++ Witness.commitRuns w))

/-- The save-time check of a workflow. -/
def Workflow.validate (w : Workflow) (teamRoles : List String) :
    Except (List WorkflowError) Unit :=
  match w.staticErrors teamRoles with
  | [] =>
    match completabilityWitness w with
    | .ok () => .ok ()
    | .error e => .error [e]
  | errors => .error errors

/-- A workflow that passed `validate`; the only input a pipeline accepts. -/
structure ValidatedWorkflow where
  workflow : Workflow
  accepted : ∃ teamRoles, workflow.validate teamRoles = .ok ()

def Workflow.validated (w : Workflow) (teamRoles : List String) :
    Except (List WorkflowError) ValidatedWorkflow :=
  match h : w.validate teamRoles with
  | .ok () => .ok ⟨w, teamRoles, h⟩
  | .error errors => .error errors

/-- The built-in code workflow is accepted for a team with both its roles. -/
def ValidatedWorkflow.builtinCode : ValidatedWorkflow :=
  ⟨.builtinCode, ["dev", "reviewer"], by decide +kernel⟩

/-- A pipeline starts on a validated workflow. -/
def PipelineState.new (taskId : String) (w : ValidatedWorkflow) : PipelineState :=
  .unchecked taskId w.workflow

end Agend.Pipeline
