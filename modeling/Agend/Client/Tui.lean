import Agend.Client.Replica
import Agend.Client.Subscribe
import Agend.Pipeline.Workflow

/-! The terminal client's fleet: a snapshot and the events after it. -/
namespace Agend.Tui

open Client Library
open Pipeline (StageKind)

inductive Backend where
  | claude
  | codex
  | opencode
  deriving DecidableEq

def Backend.parse : String → Option Backend
  | "claude" => some .claude
  | "codex" => some .codex
  | "opencode" => some .opencode
  | _ => none

def parseStageKind : String → Option StageKind
  | "work" => some .work
  | "command" => some .command
  | "approval" => some .approval
  | "submit" => some .submit
  | "merge" => some .merge
  | "fanout" => some .fanout
  | _ => none

inductive AgentState where
  | starting
  | working
  | idle
  | needsYou
  | stuck
  | failed
  | unknown
  deriving DecidableEq

inductive StageState where
  | done
  | running
  | notStarted
  | failed
  | cancelled
  deriving DecidableEq

structure StageInfo where
  name : String
  kind : Option StageKind
  state : StageState
  agent : Option String
  deriving DecidableEq

structure TaskInfo where
  id : String
  teamId : String
  title : String
  repo : Option String
  holder : Option String
  stages : List StageInfo
  status : String
  pipeline : Option TaskPipelineView
  deriving DecidableEq

structure AgentInfo where
  id : String
  teamId : String
  backend : Backend
  state : AgentState
  taskId : Option String
  deriving DecidableEq

/-- Teams, tasks and agents as the screens show them. -/
structure Catalog where
  teams : List String
  tasks : List TaskInfo
  agents : List AgentInfo
  deriving DecidableEq

/-- What a source hands over when it connects. -/
structure Snapshot where
  readKeys : List String
  catalog : Catalog
  attention : List AttentionRequiredData
  followsEvents : Bool
  deriving DecidableEq

def TaskInfo.isDone (task : TaskInfo) : Bool :=
  if task.status = "failed" ∨ task.status = "cancelled" then true
  else if task.stages.isEmpty then task.status = "done" ∨ task.status = "superseded"
  else task.stages.all (·.state = .done)

/-- The state of the stage at `i`, from where the task is. -/
def stageState (status : String) (current : Option Nat) (i : Nat) : StageState :=
  if status = "done" ∨ status = "superseded" then .done
  else match current with
    | none => .notStarted
    | some c =>
      if i < c then .done
      else if i = c then
        if status = "failed" then .failed
        else if status = "cancelled" then .cancelled
        else .running
      else .notStarted

/-- A task of the fleet view. -/
def taskInfo (view : TaskView) : TaskInfo :=
  let current := view.currentStage.bind fun c => view.stages.idxOf? c
  { id := view.taskId
    teamId := view.teamId
    title := view.title
    repo := view.pipeline.bind (·.repo)
    holder := view.assignee
    stages := view.stages.mapIdx fun i name =>
      { name
        kind := (view.pipeline.bind (·.stageKinds[i]?)).bind parseStageKind
        state := stageState view.status current i
        agent := (view.pipeline.bind (·.stageAgents[i]?)).join }
    status := view.status
    pipeline := view.pipeline }

/-- The first unfinished task that an agent holds. -/
def heldTask (agent : String) (tasks : List TaskInfo) : Option String :=
  (tasks.find? fun t => t.holder = some agent && !t.isDone).map (·.id)

def agentState : Client.AgentState → AgentState
  | .starting => .starting
  | .working => .working
  | .idle => .idle
  | .stuck => .stuck
  | .failed => .failed
  | .unknown => .unknown

/-- An instance of the fleet view. -/
def agentInfo (view : InstanceView) (tasks : List TaskInfo) : AgentInfo where
  id := view.instanceId
  teamId := view.teamId
  backend := (Backend.parse view.backend).getD .claude
  state := agentState view.state
  taskId := heldTask view.instanceId tasks

/-- After a task changed: every agent's task again. -/
def linkTasks (catalog : Catalog) : Catalog :=
  { catalog with
    agents := catalog.agents.map fun agent =>
      { agent with taskId := heldTask agent.id catalog.tasks } }

/-- The fleet view as the screens' catalog and needs-you list. -/
def snapshot (view : FleetView) : Snapshot :=
  let tasks := view.tasks.map taskInfo
  { readKeys := view.readKeys
    catalog :=
      { teams := view.teams.map (·.teamId)
        tasks
        agents := view.instances.map (agentInfo · tasks) }
    attention := view.attention
    followsEvents := true }

/-- One `attentionRequired` event. -/
structure Attention where
  eventId : Nat
  data : AttentionRequiredData
  deriving DecidableEq

/-- The item's id, else the ask id, else the event id. -/
def Attention.key (a : Attention) : String :=
  match a.data.attentionId with
  | some id => id
  | none =>
    match a.data.ask with
    | some ask => ask.askId
    | none => s!"event-{a.eventId}"

/-- A snapshot plus the events after it. -/
structure Fleet where
  catalog : Catalog
  attention : List Attention
  events : List EventData
  followsEvents : Bool
  deriving DecidableEq

namespace Fleet

def fromSnapshot (snapshot : Snapshot) : Fleet where
  catalog := snapshot.catalog
  attention := snapshot.attention.map fun data => ⟨0, data⟩
  events := []
  followsEvents := snapshot.followsEvents

/-- What an event changes besides being kept. -/
def applied (f : Fleet) (event : EventData) : Fleet :=
  match event.event with
  | .attentionRequired data =>
    { f with attention := upsert Attention.key ⟨event.eventId, data⟩ f.attention }
  | .askUpdated data =>
    { f with attention := f.attention.map fun item =>
        if item.data.ask.any (·.askId = data.askId) then
          { item with data := { item.data with ask := some data } }
        else item }
  | .attentionResolved data =>
    { f with attention := f.attention.filter (·.key ≠ data.attentionId) }
  | .instanceChanged data =>
    if f.followsEvents then
      let agents := f.catalog.agents.filter (·.id ≠ data.instanceId)
      { f with
        catalog :=
          { f.catalog with
            agents := match data.inst with
              | some view => agents ++ [agentInfo view f.catalog.tasks]
              | none => agents } }
    else f
  | .taskChanged data =>
    if f.followsEvents then
      match data.task with
      | some view =>
        { f with
          catalog := linkTasks
            { f.catalog with tasks := upsert TaskInfo.id (taskInfo view) f.catalog.tasks } }
      | none => f
    else f
  | _ => f

def apply (f : Fleet) (event : EventData) : Fleet :=
  let f := f.applied event
  { f with events := f.events ++ [event] }

def follow (f : Fleet) (events : List EventData) : Fleet :=
  events.foldl apply f

end Fleet

@[simp] theorem id_taskInfo {view : TaskView} : (taskInfo view).id = view.taskId := rfl
@[simp] theorem id_agentInfo {view : InstanceView} {tasks : List TaskInfo} :
    (agentInfo view tasks).id = view.instanceId := rfl

/-- The client's fleet holds the items of a copy of the view. -/
structure Represents (c : Fleet) (m : Replica) : Prop where
  follows : c.followsEvents = true
  agents : ∀ a, a ∈ c.catalog.agents ↔
    ∃ id view, m.instances id = some view ∧ a = agentInfo view c.catalog.tasks
  taskIds : (c.catalog.tasks.map TaskInfo.id).Nodup
  tasks : ∀ t, t ∈ c.catalog.tasks ↔ ∃ id view, m.tasks id = some view ∧ t = taskInfo view
  keys : (c.attention.map Attention.key).Nodup
  attention : ∀ d, d ∈ c.attention.map (·.data) ↔ ∃ id, m.attention id = some d
  keyed : m.Keyed

variable {c : Fleet} {m : Replica} {e : EventData} {events : List EventData}

namespace Represents

theorem key_eq (h : Represents c m) {a : Attention} (ha : a ∈ c.attention) :
    m.attention a.key = some a.data := by
  obtain ⟨id, hid⟩ := (h.attention a.data).mp (List.mem_map_of_mem ha)
  have hkey : a.key = id := by rw [Attention.key, h.keyed.attention _ _ hid]
  rw [hkey, hid]

/-- An item under a new or replaced key. -/
theorem attentionRequired (h : Represents c m) {n : Nat} {data : AttentionRequiredData}
    {id : String} (hid : data.attentionId = some id) :
    Represents (c.apply ⟨n, .attentionRequired data⟩) (m.apply (.attentionRequired data)) := by
  have hkey : (Attention.mk n data).key = id := by rw [Attention.key, hid]
  refine ⟨h.follows, ?_, h.taskIds, ?_, nodup_upsert h.keys, fun d => ?_,
    h.keyed.apply (Option.isSome_of_eq_some hid)⟩
  · simp only [Replica.apply, hid]
    exact h.agents
  · simp only [Replica.apply, hid]
    exact h.tasks
  · simp only [Fleet.apply, Fleet.applied, Replica.apply, hid, List.mem_map,
      mem_upsert_iff h.keys, hkey, Function.update_apply]
    constructor
    · rintro ⟨a, rfl | ⟨ha, hne⟩, rfl⟩
      · exact ⟨id, if_pos rfl⟩
      · exact ⟨a.key, by rw [if_neg hne, h.key_eq ha]⟩
    · rintro ⟨j, hj⟩
      split_ifs at hj with hji
      · exact ⟨_, Or.inl rfl, Option.some.inj hj⟩
      · obtain ⟨a, ha, rfl⟩ := List.mem_map.mp ((h.attention d).mpr ⟨j, hj⟩)
        have hak := h.key_eq ha
        have : a.key = j := by rw [Attention.key, h.keyed.attention _ _ hj]
        exact ⟨a, Or.inr ⟨ha, this ▸ hji⟩, rfl⟩

theorem attentionResolved (h : Represents c m) {n : Nat} {data : AttentionResolvedData} :
    Represents (c.apply ⟨n, .attentionResolved data⟩) (m.apply (.attentionResolved data)) := by
  refine ⟨h.follows, h.agents, h.taskIds, h.tasks,
    (List.filter_sublist.map _).nodup h.keys, fun d => ?_, h.keyed.apply trivial⟩
  simp only [Fleet.apply, Fleet.applied, Replica.apply, List.mem_map, List.mem_filter,
    Function.update_apply, ne_eq, decide_not, Bool.not_eq_true', decide_eq_false_iff_not]
  constructor
  · rintro ⟨a, ⟨ha, hne⟩, rfl⟩
    exact ⟨a.key, by rw [if_neg hne, h.key_eq ha]⟩
  · rintro ⟨j, hj⟩
    split_ifs at hj with hji
    obtain ⟨a, ha, rfl⟩ := List.mem_map.mp ((h.attention d).mpr ⟨j, hj⟩)
    have hkey : a.key = j := by rw [Attention.key, h.keyed.attention _ _ hj]
    exact ⟨a, ⟨ha, hkey ▸ hji⟩, rfl⟩

theorem instanceChanged (h : Represents c m) {n : Nat} {data : InstanceChangedData}
    (hk : (DaemonEvent.instanceChanged data).Keyed) :
    Represents (c.apply ⟨n, .instanceChanged data⟩) (m.apply (.instanceChanged data)) := by
  have hfollows := h.follows
  refine ⟨?_, fun a => ?_, ?_, ?_, ?_, ?_, h.keyed.apply hk⟩
  · simp [Fleet.apply, Fleet.applied, hfollows]
  · simp only [Fleet.apply, Fleet.applied, hfollows, if_true, Replica.apply,
      Function.update_apply]
    have hold : a ∈ c.catalog.agents.filter (·.id ≠ data.instanceId) ↔
        ∃ id view, id ≠ data.instanceId ∧ m.instances id = some view ∧
          a = agentInfo view c.catalog.tasks := by
      rw [List.mem_filter, h.agents]
      constructor
      · rintro ⟨⟨id, view, hv, rfl⟩, hne⟩
        refine ⟨id, view, ?_, hv, rfl⟩
        rw [← h.keyed.instances _ _ hv]
        exact of_decide_eq_true hne
      · rintro ⟨id, view, hne, hv, rfl⟩
        refine ⟨⟨id, view, hv, rfl⟩, ?_⟩
        rw [← h.keyed.instances _ _ hv] at hne
        exact decide_eq_true hne
    have hsplit : (∃ id view, (if id = data.instanceId then data.inst else m.instances id) =
        some view ∧ a = agentInfo view c.catalog.tasks) ↔
        (∃ view, data.inst = some view ∧ a = agentInfo view c.catalog.tasks) ∨
        ∃ id view, id ≠ data.instanceId ∧ m.instances id = some view ∧
          a = agentInfo view c.catalog.tasks := by
      constructor
      · rintro ⟨id, view, hv, ha⟩
        split_ifs at hv with hid
        · exact Or.inl ⟨view, hv, ha⟩
        · exact Or.inr ⟨id, view, hid, hv, ha⟩
      · rintro (⟨view, hv, ha⟩ | ⟨id, view, hid, hv, ha⟩)
        · exact ⟨data.instanceId, view, by rw [if_pos rfl, hv], ha⟩
        · exact ⟨id, view, by rw [if_neg hid, hv], ha⟩
    rw [hsplit, ← hold]
    cases data.inst with
    | none => simp
    | some view => simp [or_comm]
  · simpa [Fleet.apply, Fleet.applied, hfollows] using h.taskIds
  · simpa [Fleet.apply, Fleet.applied, hfollows, Replica.apply] using h.tasks
  · simpa [Fleet.apply, Fleet.applied, hfollows] using h.keys
  · simpa [Fleet.apply, Fleet.applied, hfollows, Replica.apply] using h.attention

theorem taskChanged (h : Represents c m) {n : Nat} {data : TaskChangedData} :
    Represents (c.apply ⟨n, .taskChanged data⟩) (m.apply (.taskChanged data)) := by
  have hfollows := h.follows
  have hkeyed : (m.apply (.taskChanged data)).Keyed := h.keyed.apply trivial
  cases htask : data.task with
  | none =>
    have hc : c.applied ⟨n, .taskChanged data⟩ = c := by simp [Fleet.applied, htask]
    have hm : m.apply (.taskChanged data) = m := by simp [Replica.apply, htask]
    rw [hm, Fleet.apply, hc]
    exact ⟨h.follows, h.agents, h.taskIds, h.tasks, h.keys, h.attention, h.keyed⟩
  | some view =>
    have hc : c.applied ⟨n, .taskChanged data⟩ = { c with
        catalog := linkTasks
          { c.catalog with tasks := upsert TaskInfo.id (taskInfo view) c.catalog.tasks } } := by
      simp [Fleet.applied, hfollows, htask]
    have hm : m.apply (.taskChanged data) =
        { m with tasks := Function.update m.tasks view.taskId (some view) } := by
      simp [Replica.apply, htask]
    rw [hm] at hkeyed
    rw [hm, Fleet.apply, hc]
    refine ⟨h.follows, fun a => ?_, nodup_upsert h.taskIds, fun t => ?_, h.keys, h.attention,
      hkeyed⟩
    · -- the agents are linked to the new tasks, whichever tasks they had
      simp only [linkTasks, List.mem_map]
      constructor
      · rintro ⟨a', ha', rfl⟩
        obtain ⟨id, i, hi, rfl⟩ := (h.agents a').mp ha'
        exact ⟨id, i, hi, rfl⟩
      · rintro ⟨id, i, hi, rfl⟩
        exact ⟨agentInfo i c.catalog.tasks, (h.agents _).mpr ⟨id, i, hi, rfl⟩, rfl⟩
    · simp only [linkTasks, mem_upsert_iff h.taskIds, Function.update_apply, id_taskInfo]
      constructor
      · rintro (rfl | ⟨ht, hne⟩)
        · exact ⟨view.taskId, view, if_pos rfl, rfl⟩
        · obtain ⟨id, v, hv, rfl⟩ := (h.tasks t).mp ht
          refine ⟨id, v, ?_, rfl⟩
          rw [id_taskInfo, h.keyed.tasks _ _ hv] at hne
          rw [if_neg hne, hv]
      · rintro ⟨id, v, hv, rfl⟩
        split_ifs at hv with hid
        · rw [Option.some.inj hv]
          exact Or.inl rfl
        · refine Or.inr ⟨(h.tasks _).mpr ⟨id, v, hv, rfl⟩, ?_⟩
          rw [id_taskInfo, h.keyed.tasks _ _ hv]
          exact hid

/-- The client does with an event what the event says. -/
theorem apply (h : Represents c m) (he : e.event.Keyed) :
    Represents (c.apply e) (m.apply e.event) := by
  obtain ⟨n, event⟩ := e
  cases event with
  | attentionRead | messageReceived | unknown =>
    exact ⟨h.follows, h.agents, h.taskIds, h.tasks, h.keys, h.attention, h.keyed⟩
  | askUpdated => cases he
  | attentionRequired data =>
    obtain ⟨id, hid⟩ := Option.isSome_iff_exists.mp he
    exact h.attentionRequired hid
  | attentionResolved data => exact h.attentionResolved
  | instanceChanged data => exact h.instanceChanged he
  | taskChanged data => exact h.taskChanged

theorem follow (h : Represents c m) (he : ∀ e ∈ events, e.event.Keyed) :
    Represents (c.follow events) (m.follow events) := by
  induction events generalizing c m with
  | nil => exact h
  | cons e events ih =>
    obtain ⟨hfirst, hrest⟩ := List.forall_mem_cons.mp he
    exact ih (h.apply hfirst) hrest

/-- The client starts from the view. -/
theorem fromView {f : Client.Fleet} (hr : f.Rows) :
    Represents (.fromSnapshot (snapshot f.view)) f.replica where
  follows := rfl
  agents := fun a => by
    simp only [Fleet.fromSnapshot, snapshot, Client.Fleet.view, List.mem_map, Table.mem_values,
      Client.Fleet.replica, Table.get_eq_some]
    constructor
    · rintro ⟨view, hv, rfl⟩
      exact ⟨view.instanceId, view, ⟨hv, rfl⟩, rfl⟩
    · rintro ⟨-, view, ⟨hv, -⟩, rfl⟩
      exact ⟨view, hv, rfl⟩
  taskIds := by
    simpa [Fleet.fromSnapshot, snapshot, Client.Fleet.view, Function.comp_def] using hr.tasks
  tasks := fun t => by
    simp only [Fleet.fromSnapshot, snapshot, Client.Fleet.view, List.mem_map,
      Client.Fleet.replica]
    constructor
    · rintro ⟨view, hv, rfl⟩
      exact ⟨view.taskId, view, Table.get_of_mem (t := ⟨f.tasks, hr.tasks⟩) hv, rfl⟩
    · rintro ⟨id, view, hv, rfl⟩
      exact ⟨view, List.mem_of_find?_eq_some hv, rfl⟩
  keys := by
    have hkey : ∀ d ∈ orderAttention f.attention.rows,
        some (Attention.mk 0 d).key = d.attentionId := by
      intro d hd
      obtain ⟨id, hid⟩ := Option.isSome_iff_exists.mp (hr.attention d (mem_orderAttention.mp hd))
      rw [Attention.key, hid]
    have hnodup : ((orderAttention f.attention.rows).map (·.attentionId)).Nodup :=
      ((orderAttention_perm _).map _).nodup_iff.mpr f.attention.nodup
    rw [← List.map_congr_left hkey] at hnodup
    apply List.Nodup.of_map some
    simpa [Fleet.fromSnapshot, snapshot, Client.Fleet.view, Function.comp_def] using hnodup
  attention := fun d => by
    simp only [Fleet.fromSnapshot, snapshot, Client.Fleet.view, List.mem_map,
      Client.Fleet.replica, Table.get_eq_some]
    constructor
    · rintro ⟨a, ⟨d, hd, rfl⟩, rfl⟩
      obtain ⟨id, hid⟩ := Option.isSome_iff_exists.mp (hr.attention d (mem_orderAttention.mp hd))
      exact ⟨id, mem_orderAttention.mp hd, hid⟩
    · rintro ⟨id, hd, -⟩
      exact ⟨⟨0, d⟩, ⟨d, mem_orderAttention.mpr hd, rfl⟩, rfl⟩
  keyed := Client.Fleet.keyed_replica

end Represents

theorem Fleet.teams_follow : (c.follow events).catalog.teams = c.catalog.teams := by
  induction events generalizing c with
  | nil => rfl
  | cons e events ih =>
    have happly : (c.apply e).catalog.teams = c.catalog.teams := by
      simp only [Fleet.apply, Fleet.applied]
      split
      · rfl
      · rfl
      · rfl
      · split_ifs <;> rfl
      · split_ifs
        · split <;> rfl
        · rfl
      · rfl
    exact ih.trans happly

/-- The client shows the instances, tasks, teams and needs-you items of a view. -/
structure Shows (c : Fleet) (v : FleetView) : Prop where
  instances : ∀ a, a ∈ c.catalog.agents ↔ ∃ view ∈ v.instances, a = agentInfo view c.catalog.tasks
  tasks : ∀ t, t ∈ c.catalog.tasks ↔ ∃ view ∈ v.tasks, t = taskInfo view
  teams : ∀ t, t ∈ c.catalog.teams ↔ ∃ view ∈ v.teams, t = view.teamId
  attention : ∀ d, d ∈ c.attention.map (·.data) ↔ d ∈ v.attention

/-- After `f` the calls keep the teams, and the last task list names every task listed before. -/
structure Steady (f : Client.Fleet) (after : List Operation) : Prop where
  teams : ∀ last ∈ (after.filterMap (·.teams?)).getLast?, ∀ t, t ∈ last ↔ t ∈ f.teams
  tasks : ∀ last ∈ (after.filterMap (·.tasks?)).getLast?,
    ∀ listed ∈ f.tasks :: after.filterMap (·.tasks?), ∀ t ∈ listed,
      ∃ t' ∈ last, t'.taskId = t.taskId

variable {f f' : Client.Fleet} {after : List Operation} {new : List EventData}

/-- The tasks shown are those of the view iff every task announced is still listed. -/
theorem Represents.tasks_iff {listed : List (List TaskView)}
    (h : Represents c (f.replica.follow new)) (ha : f.Announced listed f' new) :
    (∀ t, t ∈ c.catalog.tasks ↔ ∃ view ∈ f'.tasks, t = taskInfo view) ↔
      ∀ tasks ∈ listed, ∀ t ∈ tasks, ∃ t' ∈ f'.tasks, t'.taskId = t.taskId := by
  constructor
  · intro hshow tasks hl t ht
    obtain ⟨x, hx⟩ := Option.isSome_iff_exists.mp ((ha.known t.taskId).mpr ⟨tasks, hl, t, ht, rfl⟩)
    obtain ⟨y, hy, he⟩ := (hshow (taskInfo x)).mp ((h.tasks _).mpr ⟨_, x, hx, rfl⟩)
    have hid : x.taskId = y.taskId := congrArg TaskInfo.id he
    exact ⟨y, hy, hid.symm.trans (h.keyed.tasks _ _ hx)⟩
  · intro hall t
    rw [h.tasks]
    constructor
    · rintro ⟨id, x, hx, rfl⟩
      obtain ⟨tasks, hl, t, ht, rfl⟩ := (ha.known id).mp (Option.isSome_of_eq_some hx)
      obtain ⟨t', ht', he⟩ := hall tasks hl t ht
      have hcur := ha.tasks t' ht'
      rw [he, hx] at hcur
      exact ⟨t', ht', by rw [Option.some.inj hcur]⟩
    · rintro ⟨view, hv, rfl⟩
      exact ⟨view.taskId, view, ha.tasks view hv, rfl⟩

/-- A client that follows the events after its view ends with the daemon's view exactly when the
teams stayed and no task left the list. -/
theorem replica_converges_iff {boot : Nat} {before : List Operation}
    (hb : ∀ op ∈ before, op.Rows) (ha : ∀ op ∈ after, op.Running) :
    let f := (Client.Fleet.new boot).run before
    let f' := f.run after
    let c := (Fleet.fromSnapshot (snapshot f.view)).follow
      (f'.live.filter (f.view.asOfEventId < ·.eventId))
    Shows c f'.view ↔ Steady f after := by
  intro f f' c
  have hrows : f.Rows := Client.Fleet.rows_new.run hb
  have hnum : f.Numbered := Client.Fleet.numbered_new.run
  obtain ⟨new, hnew⟩ := (Client.Fleet.Announced.refl hrows).run ha
  obtain ⟨hteams, htasks⟩ := Client.Fleet.run_last (f := f) ha
  have hevents : f'.live.filter (f.view.asOfEventId < ·.eventId) = new := by
    have hasOf : f.view.asOfEventId - f.base = f.live.length := by
      have hlatest : f.view.asOfEventId = f.base + f.live.length := hnum.latest
      omega
    have hbase : f'.base = f.base := Client.Fleet.base_run
    have hafter : (f.run after).Numbered := hnum.run
    rw [hafter.live_after, hbase, hasOf, hnew.live, List.drop_left]
  have hrep : Represents c (f.replica.follow new) := by
    have hstart := (Represents.fromView hrows).follow hnew.keyed
    rw [← hevents] at hstart ⊢
    exact hstart
  have hcteams : c.catalog.teams = f.teams.map (·.teamId) := Fleet.teams_follow
  have hiffTasks := hrep.tasks_iff hnew
  constructor
  · intro h
    refine ⟨fun last hlast t => ?_, fun last hlast => ?_⟩
    · have hset := h.teams t.teamId
      have hlast' : f'.teams = last := by rw [hteams, Option.mem_def.mp hlast]; rfl
      have hview : f'.view.teams = last := hlast'
      have hteam : ∀ l : List TeamView, (∃ view ∈ l, t.teamId = view.teamId) ↔ t ∈ l := by
        intro l
        constructor
        · rintro ⟨view, hv, he⟩
          have heq : t = view := by
            rw [← TeamView.mk.injEq] at he
            exact he
          exact heq ▸ hv
        · exact fun ht => ⟨t, ht, rfl⟩
      rw [hview, hteam, hcteams] at hset
      rw [← hset, List.mem_map, ← hteam f.teams]
      simp only [eq_comm]
    · have hlast' : f'.tasks = last := by rw [htasks, Option.mem_def.mp hlast]; rfl
      have hall := hiffTasks.mp h.tasks
      rw [hlast'] at hall
      exact hall
  · intro h
    refine ⟨fun a => ?_, hiffTasks.mpr fun tasks hl t ht => ?_, fun t => ?_, fun d => ?_⟩
    · rw [hrep.agents]
      simp only [Client.Fleet.view, Table.mem_values]
      constructor
      · rintro ⟨id, view, hv, ha⟩
        rw [hnew.instances, Table.get_eq_some] at hv
        exact ⟨view, hv.1, ha⟩
      · rintro ⟨view, hv, ha⟩
        exact ⟨view.instanceId, view, by rw [hnew.instances, Table.get_eq_some]; exact ⟨hv, rfl⟩, ha⟩
    · cases hlast : (after.filterMap (·.tasks?)).getLast? with
      | none =>
        have hnone : after.filterMap (·.tasks?) = [] := List.getLast?_eq_none_iff.mp hlast
        rw [hlast] at htasks
        rw [hnone, List.append_nil, List.mem_singleton] at hl
        exact ⟨t, htasks ▸ hl ▸ ht, rfl⟩
      | some last =>
        rw [hlast] at htasks
        obtain ⟨t', ht', he⟩ := h.tasks last hlast tasks hl t ht
        exact ⟨t', htasks ▸ ht', he⟩
    · have hsame : ∀ x, x ∈ f.teams ↔ x ∈ f'.teams := by
        cases hlast : (after.filterMap (·.teams?)).getLast? with
        | none =>
          rw [hlast] at hteams
          exact fun x => hteams ▸ Iff.rfl
        | some last =>
          rw [hlast] at hteams
          exact fun x => hteams ▸ (h.teams last hlast x).symm
      rw [hcteams, List.mem_map]
      constructor
      · rintro ⟨x, hx, rfl⟩
        exact ⟨x, (hsame x).mp hx, rfl⟩
      · rintro ⟨x, hx, rfl⟩
        exact ⟨x, (hsame x).mpr hx, rfl⟩
    · rw [hrep.attention]
      simp only [Client.Fleet.view, mem_orderAttention]
      constructor
      · rintro ⟨id, hd⟩
        rw [hnew.attention, Table.get_eq_some] at hd
        exact hd.1
      · intro hd
        obtain ⟨id, hid⟩ := Option.isSome_iff_exists.mp (hnew.rows.attention d hd)
        exact ⟨id, by rw [hnew.attention, Table.get_eq_some]; exact ⟨hd, hid⟩⟩

/-- An instance comes, a task changes and an item is listed: the client ends with the view. -/
theorem replica_converges_iff_steady :
    let task : TaskView := ⟨"t-1", "title", "general", "running", some "g-1", [], none, none⟩
    let before : List Operation := [.setTasks [{ task with status := "open" }]]
    let after : List Operation := [.setInstance ⟨none, "g-1", "general", "codex", .idle, none⟩ "idle",
      .syncTasks [task], .setTeams [⟨"general"⟩], .raise { reason := "r", attentionId := some "a" }]
    let f := (Client.Fleet.new 1).run before
    Shows ((Fleet.fromSnapshot (snapshot f.view)).follow
      ((f.run after).live.filter (f.view.asOfEventId < ·.eventId))) (f.run after).view := by
  intro task before after f
  have hb : ∀ op ∈ before, op.Rows := by
    simp [before, Operation.Rows]
  have ha : ∀ op ∈ after, op.Running := by
    simp [after, Operation.Running, Operation.Rows]
  apply (replica_converges_iff hb ha).mpr
  have hteams : (after.filterMap (·.teams?)).getLast? = some [⟨"general"⟩] := by decide +kernel
  have hcurrent : f.teams = [⟨"general"⟩] := by decide +kernel
  refine ⟨fun last hlast t => ?_, by decide +kernel⟩
  rw [hteams, Option.mem_some] at hlast
  rw [← hlast, hcurrent]

/-- A new team reaches no client: nothing is published. -/
theorem new_team_unseen :
    let f := (Client.Fleet.new 1).run []
    let f' := f.run [.setTeams [⟨"general"⟩, ⟨"core"⟩]]
    ¬ Shows ((Fleet.fromSnapshot (snapshot f.view)).follow
      (f'.live.filter (f.view.asOfEventId < ·.eventId))) f'.view := by
  intro f f' h
  have hcore := (h.teams "core").mpr ⟨⟨"core"⟩, by decide +kernel, rfl⟩
  have hteams : ((Fleet.fromSnapshot (snapshot f.view)).follow
      (f'.live.filter (f.view.asOfEventId < ·.eventId))).catalog.teams = ["general"] := by
    decide +kernel
  rw [hteams] at hcore
  simp at hcore

end Agend.Tui
