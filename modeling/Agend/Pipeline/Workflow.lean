import Agend.Pipeline.Placeholder
import Mathlib.Data.List.Basic

/-! Workflow definitions and the static part of the save-time checks. -/
namespace Agend.Pipeline

inductive StageKind where
  | work
  | command
  | approval
  | submit
  | merge
  | fanout
  deriving DecidableEq

/-- How a fanout stage joins its children. -/
inductive FanoutJoin where
  | all
  | first
  | pick
  deriving DecidableEq, Repr

def defaultStageTimeoutMs : Nat := 300000

inductive WorkflowRequirement where
  | repo
  deriving DecidableEq

inductive WorkOutput where
  | branch
  | result
  | plan
  deriving DecidableEq, Repr

inductive Approver where
  | human
  | role (name : String)
  deriving DecidableEq, Repr

inductive FanoutSource where
  | workOutput
  | listed (children : List String)
  deriving DecidableEq, Repr

inductive TimeoutAction where
  | notify
  | reassign
  | cancel
  deriving DecidableEq

inductive Stage where
  | work (role : String) (instructions : String) (output : WorkOutput)
  | command (command : String)
  | approval (by_ : Approver) (count : Nat) (bindHead : Bool)
  | submit (forge : String)
  | merge
  | fanout (source : FanoutSource) (join : FanoutJoin)
  deriving DecidableEq, Repr

def Stage.kind : Stage → StageKind
  | work _ _ _ => .work
  | command _ => .command
  | approval _ _ _ => .approval
  | submit _ => .submit
  | merge => .merge
  | fanout _ _ => .fanout

@[simp] theorem Stage.kind_work {role instructions : String} {output : WorkOutput} :
    (Stage.work role instructions output).kind = .work := rfl

@[simp] theorem Stage.kind_command {command : String} : (Stage.command command).kind = .command := rfl

@[simp] theorem Stage.kind_approval {by_ : Approver} {count : Nat} {bindHead : Bool} :
    (Stage.approval by_ count bindHead).kind = .approval := rfl

@[simp] theorem Stage.kind_submit {forge : String} : (Stage.submit forge).kind = .submit := rfl

@[simp] theorem Stage.kind_merge : Stage.merge.kind = .merge := rfl

@[simp] theorem Stage.kind_fanout {source : FanoutSource} {join : FanoutJoin} :
    (Stage.fanout source join).kind = .fanout := rfl

theorem Stage.kind_eq_merge_iff {stage : Stage} : stage.kind = .merge ↔ stage = .merge := by
  cases stage <;> simp

structure WorkflowStage where
  id : String
  stage : Stage
  timeoutMs : Option Nat
  onTimeout : Option TimeoutAction
  onFail : Option String
  deriving DecidableEq

namespace WorkflowStage

def new (id : String) (stage : Stage) : WorkflowStage := ⟨id, stage, none, none, none⟩

def effectiveTimeoutMs (s : WorkflowStage) : Nat := s.timeoutMs.getD defaultStageTimeoutMs

def effectiveTimeoutAction (s : WorkflowStage) : TimeoutAction := s.onTimeout.getD .notify

def isKind (kind : StageKind) (s : WorkflowStage) : Bool := s.stage.kind = kind

/-- A work stage whose output is a branch. -/
def isBranchWork (s : WorkflowStage) : Bool :=
  match s.stage with
  | .work _ _ .branch => true
  | _ => false

def isPlanWork (s : WorkflowStage) : Bool :=
  match s.stage with
  | .work _ _ .plan => true
  | _ => false

def isBoundApproval (s : WorkflowStage) : Bool :=
  match s.stage with
  | .approval _ _ bindHead => bindHead
  | _ => false

/-- Commands and head-bound approvals: what a new head makes the task repeat. -/
def isHeadBound (s : WorkflowStage) : Bool := s.isKind .command || s.isBoundApproval

/-- Stages that need a branch head: merge, command, head-bound approval. -/
def needsHead (s : WorkflowStage) : Bool := s.isKind .merge || s.isHeadBound

def isPickFanout (s : WorkflowStage) : Bool :=
  match s.stage with
  | .fanout _ .pick => true
  | _ => false

end WorkflowStage

structure Workflow where
  id : String
  version : Nat
  requires : List WorkflowRequirement
  allowUnreviewed : Bool
  stages : List WorkflowStage
  deriving DecidableEq


inductive WorkflowError where
  | duplicateStageId (id : String)
  | zeroTimeout (stageId : String)
  | invalidFailureTarget (stageId target : String)
  | unknownRole (stageId role : String)
  | zeroApprovalCount (stageId : String)
  | invalidCommand (stageId : String)
  | quotedPlaceholder (stageId : String) (placeholder : Placeholder)
  | placeholderWithoutSource (stageId : String) (placeholder : Placeholder)
  | headBoundBeforeWork (stageId workStageId : String)
  | mergeNotLast (stageId : String)
  | noEarlierWork (stageId : String)
  | noEarlierBranchWork (stageId : String)
  | submitWithoutBranchWork
  | invalidForge (stageId forge : String)
  | repoRequired
  | mergeWithoutBoundApproval (stageId : String)
  | mergeWithoutCommand (stageId : String)
  | fanoutWithoutPlan (stageId : String)
  | invalidFanoutSource (stageId : String)
  | pickWithoutApproval (stageId : String)
  | workAfterBranchWork (stageId workStageId : String)
  | notCompletable (scenario stageId reason : String)
  deriving DecidableEq, Repr

/-- Unicode `White_Space`, the characters the source's `trim` removes. -/
def isWhiteSpace (c : Char) : Bool :=
  (9 ≤ c.val && c.val ≤ 13) || c.val = 32 || c.val = 0x85 || c.val = 0xA0 || c.val = 0x1680 ||
    (0x2000 ≤ c.val && c.val ≤ 0x200A) || c.val = 0x2028 || c.val = 0x2029 ||
    c.val = 0x202F || c.val = 0x205F || c.val = 0x3000

def isBlank (s : String) : Bool := s.toList.all isWhiteSpace

/-- An element occurs again later in the list. -/
def hasDuplicate : List String → Bool
  | [] => false
  | x :: rest => rest.contains x || hasDuplicate rest

/-- The last index below `before` whose stage satisfies `p`. -/
def lastIndexBefore (stages : List WorkflowStage) (before : Nat) (p : WorkflowStage → Bool) :
    Option Nat :=
  (List.range before).reverse.find? fun i => stages[i]?.any p

namespace Workflow

variable (w : Workflow)

def forgeKind : String :=
  (w.stages.findSome? fun s => match s.stage with
    | .submit forge => some forge
    | _ => none).getD "local"

def requiresRepo : Bool := w.requires.contains .repo

/-- Position of the first stage with this id. -/
def stagePosition (id : String) : Option Nat := w.stages.findIdx? fun s => s.id = id

def failureTargetErrors (index : Nat) (s : WorkflowStage) : List WorkflowError :=
  match s.onFail with
  | none => []
  | some target =>
    match w.stagePosition target with
    | some i =>
      if i < index && w.stages[i]?.any (·.isKind .work) then []
      else [.invalidFailureTarget s.id target]
    | none => [.invalidFailureTarget s.id target]

def placeholderHasSource (index : Nat) : Placeholder → Bool
  | .pr => (w.stages.take index).any (·.isKind .submit)
  | _ => (w.stages.take index).any (·.isBranchWork)

def roleErrors (teamRoles : List String) (s : WorkflowStage) (role : String) :
    List WorkflowError :=
  if teamRoles.contains role then [] else [.unknownRole s.id role]

def stageKindErrors (teamRoles : List String) (index : Nat) (s : WorkflowStage) :
    List WorkflowError :=
  match s.stage with
  | .submit forge =>
    if (forge ≠ "local" && forge ≠ "github") || forge ≠ w.forgeKind then
      [.invalidForge s.id forge] else []
  | .work role _ _ => roleErrors teamRoles s role
  | .approval approver count _ =>
    (match approver with
      | .role role => roleErrors teamRoles s role
      | .human => []) ++ (if count = 0 then [.zeroApprovalCount s.id] else [])
  | .command command =>
    if isBlank command then [.invalidCommand s.id]
    else match commandPlaceholders command with
      | .error p => [.quotedPlaceholder s.id p]
      | .ok used => (used.filter fun p => !w.placeholderHasSource index p).map
          (.placeholderWithoutSource s.id)
  | .merge => []
  | .fanout _ _ => []

def stageErrors (teamRoles : List String) (index : Nat) (s : WorkflowStage) :
    List WorkflowError :=
  (if (w.stages.take index).any (·.id = s.id) then [.duplicateStageId s.id] else []) ++
    (if s.timeoutMs = some 0 then [.zeroTimeout s.id] else []) ++
    w.failureTargetErrors index s ++ w.stageKindErrors teamRoles index s

def submitErrors : List WorkflowError :=
  match w.stages.findIdx? (·.isKind .submit) with
  | some i => if (w.stages.take i).any (·.isBranchWork) then [] else [.submitWithoutBranchWork]
  | none => []

def repoErrors : List WorkflowError :=
  if w.stages.any (fun s => s.isKind .submit || s.needsHead) && !w.requiresRepo then
    [.repoRequired] else []

def mergeErrors (index : Nat) (s : WorkflowStage) : List WorkflowError :=
  if s.isKind .merge then
    (if (w.stages.take index).any (·.isKind .command) then [] else [.mergeWithoutCommand s.id]) ++
      (if index + 1 ≠ w.stages.length then [.mergeNotLast s.id] else []) ++
      (if !(w.stages.take index).any (·.isBoundApproval) && !w.allowUnreviewed then
        [.mergeWithoutBoundApproval s.id] else [])
  else []

def fanoutErrors (index : Nat) (s : WorkflowStage) : List WorkflowError :=
  match s.stage with
  | .fanout source join =>
    (match source with
      | .listed children =>
        if children.isEmpty || children.any isBlank || hasDuplicate children then
          [.invalidFanoutSource s.id] else []
      | .workOutput =>
        if (w.stages.take index).any (·.isPlanWork) then [] else [.fanoutWithoutPlan s.id]) ++
      (if join = .pick && !w.stages[index + 1]?.any (·.isKind .approval) then
        [.pickWithoutApproval s.id] else [])
  | _ => []

/-- The last work stage that produces a branch, if any. -/
def lastBranchWork : Option Nat := lastIndexBefore w.stages w.stages.length (·.isBranchWork)

def stageIdAt (index : Nat) : String := (w.stages[index]?.map (·.id)).getD ""

/-- A check or head-bound approval before the last branch work could never cover the head
that is merged. -/
def headBoundErrors : List WorkflowError :=
  match w.lastBranchWork with
  | some last => ((w.stages.take last).filter (·.isHeadBound)).map
      fun s => .headBoundBeforeWork s.id (w.stageIdAt last)
  | none => []

/-- A failed check or requested change needs an earlier work stage, a head an earlier branch. -/
def earlierWorkErrors (index : Nat) (s : WorkflowStage) : List WorkflowError :=
  (if (s.isKind .command || s.isKind .approval) && !(w.stages.take index).any (·.isKind .work) then
    [.noEarlierWork s.id] else []) ++
  (if s.needsHead && !(w.stages.take index).any (·.isBranchWork) then
    [.noEarlierBranchWork s.id] else [])

/-- With anything bound to the head, the last branch work is the last work stage. -/
def workAfterErrors : List WorkflowError :=
  if w.stages.any (·.needsHead) then
    match w.lastBranchWork with
    | some last => ((w.stages.drop (last + 1)).filter (·.isKind .work)).map
        fun s => .workAfterBranchWork s.id (w.stageIdAt last)
    | none => []
  else []

def overStages (f : Nat → WorkflowStage → List WorkflowError) : List WorkflowError :=
  w.stages.zipIdx.flatMap fun p => f p.2 p.1

/-- The rules `validate` checks before it runs the completability witness. -/
def staticErrors (teamRoles : List String) : List WorkflowError :=
  w.overStages (w.stageErrors teamRoles) ++ w.submitErrors ++ w.repoErrors ++
    w.overStages w.mergeErrors ++ w.overStages w.fanoutErrors ++ w.headBoundErrors ++
    w.overStages w.earlierWorkErrors ++ w.workAfterErrors

def builtinCode : Workflow where
  id := "code"
  version := 1
  requires := [.repo]
  allowUnreviewed := false
  stages := [
    .new "work" (.work "dev" "" .branch),
    .new "submit" (.submit "local"),
    { WorkflowStage.new "checks" (.command "cargo test") with timeoutMs := some 300000 },
    .new "review" (.approval (.role "reviewer") 1 true),
    .new "merge" .merge]

end Workflow

end Agend.Pipeline
