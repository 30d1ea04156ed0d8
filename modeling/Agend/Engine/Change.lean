import Agend.Engine.Tickets

/-! Every write the engine makes, with what it knows when it makes it. -/
namespace Agend.Engine

open Agend.Library Agend.Pipeline Agend.Runtime

variable {w w' : World} {r r' : TaskRow} {v v' : ValidatedWorkflow} {st st' : PipelineState}
  {i t : String} {b : BindingRow}

/-- The assignee of no unfinished task, and bound to nothing. -/
structure Free (w : World) (i : String) : Prop where
  task : ∀ t r, w.row t = some r → r.isOpen = true → r.task.assignee ≠ some i
  binding : w.bindings.get i = none

/-- A binding agrees with the assignees. -/
structure Fits (w : World) (b : BindingRow) : Prop where
  holder : ∀ t r, w.row t = some r → r.isOpen = true → r.task.assignee = some b.instanceId →
    t = b.task
  work : b.kind = .work → ∀ r, w.row b.task = some r → r.isOpen = true →
    r.task.assignee = some b.instanceId
  review : b.kind = .review → ∀ r, w.row b.task = some r → r.task.assignee ≠ some b.instanceId

def pinned (task : Task) : String × Nat := (task.workflowId, task.workflowVersion)

/-- The state a row's stored pipeline is. -/
structure Standing (w : World) (r : TaskRow) (v : ValidatedWorkflow) (st : PipelineState) :
    Prop where
  row : w.row r.id = some r
  workflow : w.workflows.get (pinned r.task) = some v.workflow
  stored : r.pipeline = some st.snapshot
  invariant : Invariant r.id v st

theorem Standing.unique (h : Standing w r v st) (h' : Standing w r v' st') :
    v.workflow = v'.workflow ∧ st = st' := by
  have hw : v.workflow = v'.workflow := Option.some.inj (h.workflow.symm.trans h'.workflow)
  refine ⟨hw, ?_⟩
  have hs : st.snapshot = st'.snapshot := Option.some.inj (h.stored.symm.trans h'.stored)
  have hst := PipelineState.ofSnapshot_snapshot st
  have hst' := PipelineState.ofSnapshot_snapshot st'
  rw [h.invariant.workflow, hs, hw, ← h'.invariant.workflow] at hst
  exact hst.symm.trans hst'

/-- The stage a state waits at. -/
def AtStage (st : PipelineState) (stage : Stage) : Prop :=
  st.currentStage.map WorkflowStage.stage = some stage

/-- A reviewer has the role and the team of the stage its binding names. -/
def Suited (w : World) (b : BindingRow) : Prop :=
  ∃ r wf s role count bound agent n, w.row b.task = some r ∧
    w.workflows.get (pinned r.task) = some wf ∧ s ∈ wf.stages ∧
    s.stage = .approval (.role role) count bound ∧ b.ticket = ticketOf b.task s.id n ∧
    w.agents.get b.instanceId = some agent ∧ agent.role = role ∧ agent.team = r.task.teamId

/-- The holder's role is not the one the stage asks for, and it was not sent back to the holder. -/
def Leaves (w : World) (r : TaskRow) : Prop :=
  ∃ v st role text output holder agent, Standing w r v st ∧ AtStage st (.work role text output) ∧
    st.pendingWorkReason = none ∧ r.task.assignee = some holder ∧
    w.agents.get holder = some agent ∧ agent.role ≠ role

/-- What the engine writes to a task and its pipeline. -/
inductive Rewrite (w : World) (r r' : TaskRow) : Prop
  | noted (ht : r'.task = r.task) (hp : r'.pipeline = r.pipeline)
  | closed (ht : r'.task = { r.task with status := .failed }) (hp : r'.pipeline = r.pipeline)
  | freed (hc : r.isOpen = false) (ht : r'.task = { r.task with assignee := none })
      (hp : r'.pipeline = r.pipeline)
  | blocked {status : TaskStatus} (ho : r.isOpen = true) (hs : status.isClosed = false)
      (ht : r'.task = { r.task with status := status }) (hp : r'.pipeline = r.pipeline)
  | stepped {v : ValidatedWorkflow} {st next : PipelineState} {e : PipelineEvent}
      {actions : List PipelineAction} (ho : r.isOpen = true) (hs : Standing w r v st)
      (he : step st e = .ok (next, actions))
      (ht : r'.task = { r.task with
        status := statusOf next.status
        mergeCommit := next.mergeCommit })
      (hp : r'.pipeline = some next.snapshot)
  | assigned {i : String} (hn : r.task.assignee = none) (hf : Free w i)
      (ht : r'.task = { r.task with assignee := some i }) (hp : r'.pipeline = r.pipeline)
  | handedOff (hb : ∀ j b, w.bindings.get j = some b → b.task = r.id → b.kind ≠ .work)
      (hl : r.isOpen = true → Leaves w r) (ht : r'.task = { r.task with assignee := none })
      (hp : r'.pipeline = r.pipeline)

/-- Whom a dispatch goes to. -/
inductive Entrusted (w : World) (r : TaskRow) (st : PipelineState) (i : String) : Bool → Prop
  | work {role text : String} {output : WorkOutput} {agent : Agent}
      (hs : AtStage st (.work role text output)) (ha : w.agents.get i = some agent)
      (hr : r.isOpen = true → st.pendingWorkReason = none → agent.role = role)
      (hh : r.isOpen = true → r.task.assignee = some i) : Entrusted w r st i false
  | review {role : String} {count : Nat} {bound : Bool} {agent : Agent}
      (hs : AtStage st (.approval (.role role) count bound)) (ha : w.agents.get i = some agent)
      (hr : agent.role = role) (ht : agent.team = r.task.teamId)
      (hh : r.task.assignee ≠ some i) : Entrusted w r st i true

/-- The message composed for a task as it stands. -/
structure Dispatched (w : World) (m : NewMessage) (r : TaskRow) (v : ValidatedWorkflow)
    (st : PipelineState) (review : Bool) (i : String) : Prop where
  standing : Standing w r v st
  live : st.Live
  composed : ∃ team, w.teams.get r.task.teamId = some team ∧
    m = dispatchOf w.home team.repo r.task st review i
  entrusted : Entrusted w r st i review

inductive Change (w : World) : World → Prop
  | same : Change w w
  | opened (git : Bool) : Change w { w with git := git }
  | dropped (i : String) : Change w (w.drop i)
  | bound (b : BindingRow) (hn : w.bindings.get b.instanceId = none)
      (hr : (w.row b.task).isSome = true)
      (hw : ∀ j c, w.bindings.get j = some c → c.worktree ≠ b.worktree) (hf : Fits w b)
      (hs : b.kind = .review → Suited w b) : Change w { w with bindings := w.bindings.put b }
  | rebound {old : BindingRow} (b : BindingRow) (hb : w.bindings.get b.instanceId = some old)
      (ht : b.task = old.task) (hk : b.kind = old.kind) (hw : b.worktree = old.worktree)
      (hs : b.kind = .review → Suited w b) : Change w { w with bindings := w.bindings.put b }
  | wrote {r r' : TaskRow} (hr : w.row r.id = some r) (h : Rewrite w r r') :
      Change w (w.putRow r')
  | created {v : ValidatedWorkflow} (r : TaskRow) (hr : w.row r.id = none) (hid : Plain r.id)
      (ha : r.task.assignee = none) (hw : w.workflows.get (pinned r.task) = some v.workflow)
      (hp : r.pipeline = some (PipelineState.new r.id v).snapshot) : Change w (w.putRow r)
  | claimed {r : TaskRow} {v : ValidatedWorkflow} {st : PipelineState} {review : Bool}
      {i : String} (m : NewMessage) (hn : w.messages.get m.id = none)
      (h : Dispatched w m r v st review i) : Change w { w with messages := w.messages.put m }
  | joined {old : Agent} (agent : Agent) (ha : w.agents.get agent.id = some old)
      (hf : Free w agent.id) : Change w { w with agents := w.agents.put agent }
  | hired (agent : Agent) (ha : w.agents.get agent.id = none) (hid : Plain agent.id) :
      Change w { w with agents := w.agents.put agent }
  | saved (workflow : Workflow) (hn : w.workflows.get (workflowKey workflow) = none) :
      Change w { w with workflows := w.workflows.put workflow }
  | founded (team : Team) (hn : w.teams.get team.id = none) :
      Change w { w with teams := w.teams.put team }
  | steered {old : Team} (team : Team) (ht : w.teams.get team.id = some old)
      (hr : team.repo = old.repo) : Change w { w with teams := w.teams.put team }

/-! What a rewrite leaves alone. -/

/-- A later row of the same task. -/
structure Ages (r r' : TaskRow) : Prop where
  id : r'.task.id = r.task.id
  title : r'.task.title = r.task.title
  team : r'.task.teamId = r.task.teamId
  workflow : pinned r'.task = pinned r.task
  closed : r.isOpen = false → r'.isOpen = false

theorem Ages.refl (r : TaskRow) : Ages r r := ⟨rfl, rfl, rfl, rfl, fun h => h⟩

theorem Ages.trans {r1 r2 : TaskRow} (h : Ages r r1) (h' : Ages r1 r2) : Ages r r2 where
  id := h'.id.trans h.id
  title := h'.title.trans h.title
  team := h'.team.trans h.team
  workflow := h'.workflow.trans h.workflow
  closed hc := h'.closed (h.closed hc)

namespace Rewrite

theorem ages (h : Rewrite w r r') : Ages r r' := by
  cases h with
  | noted ht => exact ⟨by rw [ht], by rw [ht], by rw [ht], by rw [ht], by simp [TaskRow.isOpen, ht]⟩
  | closed ht | freed _ ht | assigned _ _ ht | handedOff _ _ ht =>
    exact ⟨by rw [ht], by rw [ht], by rw [ht], by rw [ht]; rfl,
      by simp [TaskRow.isOpen, ht, TaskStatus.isClosed]⟩
  | blocked ho _ ht | stepped ho _ _ ht =>
    refine ⟨by rw [ht], by rw [ht], by rw [ht], by rw [ht]; rfl, fun hc => ?_⟩
    rw [ho] at hc
    cases hc

/-- Whoever holds an open task after a rewrite held it before, or was free. -/
theorem holder (h : Rewrite w r r') (ho : r'.isOpen = true) (ha : r'.task.assignee = some i) :
    r.isOpen = true ∧ r.task.assignee = some i ∨ Free w i := by
  have hopen : r.isOpen = true := by
    by_contra hc
    have hclosed := h.ages.closed (by simpa using hc)
    rw [ho] at hclosed
    cases hclosed
  cases h with
  | noted ht => exact Or.inl ⟨hopen, by rw [← ha, ht]⟩
  | closed ht => simp [TaskRow.isOpen, ht, TaskStatus.isClosed] at ho
  | freed hc => simp [hc] at hopen
  | blocked _ _ ht | stepped _ _ _ ht => exact Or.inl ⟨hopen, by rw [← ha, ht]⟩
  | assigned hn hf ht =>
    right
    rw [ht] at ha
    obtain rfl := Option.some.inj ha
    exact hf
  | handedOff _ _ ht =>
    rw [ht] at ha
    cases ha

/-- An assignee that appears was free. -/
theorem newHolder (h : Rewrite w r r') (ha : r'.task.assignee = some i)
    (hne : r.task.assignee ≠ some i) : Free w i := by
  cases h with
  | noted ht | closed ht | blocked _ _ ht | stepped _ _ _ ht => exact absurd (by rw [← ha, ht]) hne
  | freed _ ht | handedOff _ _ ht =>
    rw [ht] at ha
    cases ha
  | assigned _ hf ht =>
    rw [ht] at ha
    obtain rfl := Option.some.inj ha
    exact hf

end Rewrite

namespace Change

/-- A row after a change is the row before it, a rewrite of it, or a new one. -/
theorem row (h : Change w w') (hr : w'.row t = some r') :
    w.row t = some r' ∨ (∃ r, w.row t = some r ∧ Rewrite w r r' ∧ w' = w.putRow r') ∨
      w.row t = none ∧ w' = w.putRow r' ∧ r'.task.assignee = none ∧ Plain t ∧
        ∃ v, w.workflows.get (pinned r'.task) = some v.workflow ∧
          r'.pipeline = some (PipelineState.new t v).snapshot := by
  cases h with
  | @wrote r1 r2 hr1 h =>
    rw [World.row_putRow] at hr
    split_ifs at hr with ht
    · obtain rfl := Option.some.inj hr
      have hid : r2.id = r1.id := h.ages.id
      exact Or.inr (Or.inl ⟨r1, by rw [ht, hid]; exact hr1, h, rfl⟩)
    · exact Or.inl hr
  | @created v r1 hn hid ha hw hp =>
    rw [World.row_putRow] at hr
    split_ifs at hr with ht
    · obtain rfl := Option.some.inj hr
      subst ht
      exact Or.inr (Or.inr ⟨hn, rfl, ha, hid, v, hw, hp⟩)
    · exact Or.inl hr
  | _ => exact Or.inl hr

/-- A binding after a change is the binding before it, that binding with another ticket, or a new
one. -/
theorem binding (h : Change w w') (hb : w'.bindings.get i = some b) :
    w.bindings.get i = some b ∨
      (∃ old, w.bindings.get i = some old ∧ b.task = old.task ∧ b.kind = old.kind ∧
        b.worktree = old.worktree ∧ (b.kind = .review → Suited w b) ∧
        w' = { w with bindings := w.bindings.put b }) ∨
      w.bindings.get i = none ∧ (w.row b.task).isSome = true ∧
        (∀ j c, w.bindings.get j = some c → c.worktree ≠ b.worktree) ∧ Fits w b ∧
        (b.kind = .review → Suited w b) ∧ w' = { w with bindings := w.bindings.put b } := by
  cases h with
  | dropped j =>
    simp only [World.drop, Table.get_erase] at hb
    split_ifs at hb
    exact Or.inl hb
  | bound c hn hr hw hf hs =>
    simp only [Table.get_put] at hb
    split_ifs at hb with hi
    · obtain rfl := Option.some.inj hb
      exact Or.inr (Or.inr ⟨hi ▸ hn, hr, hw, hf, hs, rfl⟩)
    · exact Or.inl hb
  | rebound c hold ht hk hw hs =>
    simp only [Table.get_put] at hb
    split_ifs at hb with hi
    · obtain rfl := Option.some.inj hb
      exact Or.inr (Or.inl ⟨_, hi ▸ hold, ht, hk, hw, hs, rfl⟩)
    · exact Or.inl hb
  | _ => exact Or.inl hb

end Change

end Agend.Engine
