import Agend.Library.Table
import Agend.Pipeline.Restart
import Agend.Runtime.Records

/-! The rows the pipeline engine keeps: tasks with their stored pipeline, agents, and the bindings
of agents to worktrees. -/
namespace Agend.Engine

open Agend.Library Agend.Pipeline Agend.Runtime

inductive TaskStatus where
  | open_
  | running
  | blocked
  | done
  | superseded
  | failed
  | cancelled
  deriving DecidableEq

/-- A closed task takes no further event. -/
def TaskStatus.isClosed : TaskStatus → Bool
  | .done | .failed | .cancelled | .superseded => true
  | .open_ | .running | .blocked => false

structure Task where
  id : String
  title : String
  teamId : String
  workflowId : String
  workflowVersion : Nat
  parent : Option String
  dependsOn : List String
  supersededBy : Option String
  assignee : Option String
  status : TaskStatus
  requiresRepo : Bool
  mergeCommit : Option String
  deriving DecidableEq

inductive TaskOperation where
  | reassign (assignee : String)
  | reopen
  | block
  | unblock
  | complete (mergeCommit : Option String)
  | supersede (newTaskId : String)
  | setRelations (parent : Option String) (dependsOn : List String)
  deriving DecidableEq

inductive TaskError where
  | closed
  | notDone
  | notBlocked
  | selfSupersede
  | selfDependency
  | missingMergeRecord
  deriving DecidableEq

def TaskError.message : TaskError → String
  | closed => "a closed task cannot be changed"
  | notDone => "only a done task can be reopened"
  | notBlocked => "only a blocked task can be unblocked"
  | selfSupersede => "a task cannot supersede itself"
  | selfDependency => "a task cannot depend on itself"
  | missingMergeRecord => "a repository task can only complete with a recorded merge commit"

namespace Task

def new (id title teamId workflowId : String) (workflowVersion : Nat) : Task where
  id := id
  title := title
  teamId := teamId
  workflowId := workflowId
  workflowVersion := workflowVersion
  parent := none
  dependsOn := []
  supersededBy := none
  assignee := none
  status := .open_
  requiresRepo := false
  mergeCommit := none

def apply (t : Task) : TaskOperation → Except TaskError Task
  | .reassign assignee =>
    if t.status.isClosed then .error .closed
    else .ok { t with assignee := some assignee, status := .running }
  | .reopen =>
    if t.status = .superseded then .error .closed
    else if t.status ≠ .done then .error .notDone
    else .ok { t with status := .open_, mergeCommit := none }
  | .block => if t.status.isClosed then .error .closed else .ok { t with status := .blocked }
  | .unblock =>
    if t.status ≠ .blocked then .error .notBlocked
    else .ok { t with status := if t.assignee.isSome then .running else .open_ }
  | .complete mergeCommit =>
    if t.status.isClosed then .error .closed
    else if t.requiresRepo && mergeCommit.isNone then .error .missingMergeRecord
    else .ok { t with status := .done, mergeCommit := mergeCommit }
  | .supersede newTaskId =>
    if t.status.isClosed then .error .closed
    else if newTaskId = t.id then .error .selfSupersede
    else .ok { t with status := .superseded, supersededBy := some newTaskId }
  | .setRelations parent dependsOn =>
    if parent = some t.id || dependsOn.contains t.id then .error .selfDependency
    else .ok { t with parent := parent, dependsOn := dependsOn }

/-- Blocking and unblocking move an open task between the open statuses. -/
theorem open_of_apply {t t' : Task} {op : TaskOperation} (hop : op = .block ∨ op = .unblock)
    (h : t.apply op = .ok t') : t.status.isClosed = false ∧
      ∃ status, status.isClosed = false ∧ t' = { t with status := status } := by
  rcases hop with rfl | rfl
  · simp only [apply] at h
    split_ifs at h with hc
    exact ⟨by simpa using hc, .blocked, rfl, (Except.ok.inj h).symm⟩
  · simp only [apply] at h
    split_ifs at h with hb ha
    · exact ⟨by simp [not_not.mp hb, TaskStatus.isClosed], _, rfl, (Except.ok.inj h).symm⟩
    · exact ⟨by simp [not_not.mp hb, TaskStatus.isClosed], _, rfl, (Except.ok.inj h).symm⟩

end Task

/-- The pipeline columns of a task. `pipeline` is what the stored text parses to, if it does. -/
structure TaskProgress where
  pipeline : Option PipelineSnapshot
  blockReason : Option String
  deriving DecidableEq

structure Progress where
  data : TaskProgress
  attentionReason : Option String
  acknowledged : Bool
  deriving DecidableEq

structure TaskRow where
  task : Task
  version : Nat
  progress : Option Progress
  deriving DecidableEq

namespace TaskRow

def id (r : TaskRow) : String := r.task.id

def isOpen (r : TaskRow) : Bool := !r.task.status.isClosed

def pipeline (r : TaskRow) : Option PipelineSnapshot := r.progress.bind (·.data.pipeline)

end TaskRow

structure Team where
  id : String
  repo : Option String
  defaultWorkflow : String
  deriving DecidableEq

/-- An instance as the pipeline sees it; whether it runs is the supervisor's to say. -/
structure Agent where
  id : String
  backend : Backend
  team : String
  role : String
  delivery : String
  deriving DecidableEq

inductive BindingKind where
  | work
  | review
  deriving DecidableEq

inductive BindingStatus where
  | pending
  | ready
  deriving DecidableEq

structure BindingRow where
  instanceId : String
  task : String
  kind : BindingKind
  worktree : String
  branch : Option String
  head : Option String
  ticket : String
  status : BindingStatus
  deriving DecidableEq

/-- How a writer relinquishes a binding without losing a task's branch. -/
inductive BindingRelease where
  | abandoned
  | merged
  | handoff
  deriving DecidableEq

def workflowKey (w : Workflow) : String × Nat := (w.id, w.version)

/-- The store with the two fields of the engine that its programs read: the directory of the
daemon, and whether it found git when it started. -/
structure World where
  home : String
  git : Bool
  teams : Table Team.id
  agents : Table Agent.id
  workflows : Table workflowKey
  tasks : Table TaskRow.id
  bindings : Table BindingRow.instanceId
  messages : Table NewMessage.id

namespace World

def empty (home : String) : World :=
  ⟨home, false, .empty, .empty, .empty, .empty, .empty, .empty⟩

def row (w : World) (task : String) : Option TaskRow := w.tasks.get task

def putRow (w : World) (row : TaskRow) : World := { w with tasks := w.tasks.put row }

def drop (w : World) (instanceId : String) : World :=
  { w with bindings := w.bindings.erase instanceId }

@[simp] theorem putRow_bindings (w : World) (r : TaskRow) : (w.putRow r).bindings = w.bindings := rfl
@[simp] theorem putRow_agents (w : World) (r : TaskRow) : (w.putRow r).agents = w.agents := rfl
@[simp] theorem putRow_teams (w : World) (r : TaskRow) : (w.putRow r).teams = w.teams := rfl
@[simp] theorem putRow_workflows (w : World) (r : TaskRow) :
    (w.putRow r).workflows = w.workflows := rfl
@[simp] theorem putRow_messages (w : World) (r : TaskRow) :
    (w.putRow r).messages = w.messages := rfl
@[simp] theorem putRow_home (w : World) (r : TaskRow) : (w.putRow r).home = w.home := rfl
@[simp] theorem drop_row (w : World) (i t : String) : (w.drop i).row t = w.row t := rfl
@[simp] theorem drop_tasks (w : World) (i : String) : (w.drop i).tasks = w.tasks := rfl
@[simp] theorem drop_agents (w : World) (i : String) : (w.drop i).agents = w.agents := rfl
@[simp] theorem drop_workflows (w : World) (i : String) : (w.drop i).workflows = w.workflows := rfl
@[simp] theorem drop_messages (w : World) (i : String) : (w.drop i).messages = w.messages := rfl

theorem row_putRow {w : World} {r : TaskRow} {t : String} :
    (w.putRow r).row t = if t = r.id then some r else w.row t :=
  Table.get_put

theorem row_putRow_of_ne {w : World} {r : TaskRow} {t : String} (h : t ≠ r.id) :
    (w.putRow r).row t = w.row t := by
  rw [row_putRow, if_neg h]

theorem id_of_row {w : World} {r : TaskRow} {t : String} (h : w.row t = some r) : r.id = t :=
  (Table.get_eq_some.mp h).2

end World

end Agend.Engine
