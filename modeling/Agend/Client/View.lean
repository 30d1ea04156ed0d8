import Agend.Client.Protocol
import Mathlib.Data.Finset.Basic
import Mathlib.Logic.Relation

/-! The fleet view and the event log: every change of the view under one lock. -/
namespace Agend.Client

open Library

/-- How many events the log and the channel of live events keep. -/
@[irreducible] def retainedEvents : Nat := 1024

theorem retainedEvents_pos : 0 < retainedEvents := by
  unfold retainedEvents
  decide

def defaultTeam : String := "general"

/-- The needs-you id of a failed instance. -/
def failedAttentionId (instanceId : String) : String :=
  s!"instance-failed:{instanceId}"

/-- Failed-instance timestamps identify durable episodes; other waits may vary. -/
def sameAttention (a b : AttentionRequiredData) : Bool :=
  if a.attentionId.any fun id => "instance-failed:".toList.isPrefixOf id.toList then
    a = b
  else
    { a with waitingSinceUnixMs := none } = { b with waitingSinceUnixMs := none }

/-- The event of a task that is new or different. -/
def TaskView.changed (task : TaskView) : DaemonEvent :=
  .taskChanged ⟨task.taskId, s!"{task.taskId}: {task.status}", some task⟩

/-- The state behind the lock. `live` holds every message sent to the broadcast channel. -/
structure Fleet where
  base : Nat
  readKeys : Finset String
  latest : Nat
  log : List EventData
  instances : Table InstanceView.instanceId
  tasks : List TaskView
  teams : List TeamView
  attention : Table AttentionRequiredData.attentionId
  live : List EventData

/-- An empty fleet whose first event id is `bootUnixMs * 1000 + 1`. -/
def Fleet.new (bootUnixMs : Nat) : Fleet where
  base := min (bootUnixMs * 1000) u64Max
  readKeys := ∅
  latest := min (bootUnixMs * 1000) u64Max
  log := []
  instances := .empty
  tasks := []
  teams := [⟨defaultTeam⟩]
  attention := .empty
  live := []

namespace Fleet

variable (f : Fleet)

/-- Appends `event` and sends it to every subscriber. -/
def push (event : DaemonEvent) : Fleet :=
  let data := ⟨f.latest + 1, event⟩
  let log := f.log ++ [data]
  { f with
    latest := f.latest + 1
    log := if retainedEvents < log.length then log.tail else log
    live := f.live ++ [data] }

def publish (event : DaemonEvent) : Fleet :=
  f.push event

def setTeams (teams : List TeamView) : Fleet :=
  { f with teams }

def dismiss (id : String) : Fleet :=
  match f.attention.get (some id) with
  | none => f
  | some _ => { f with attention := f.attention.erase (some id) }.push
      (.attentionResolved ⟨id, .unknown⟩)

def upsertAttention (item : AttentionRequiredData) : Fleet :=
  match item.attentionId with
  | none => f
  | some id =>
    if f.attention.get (some id) = some item then f
    else { f with attention := f.attention.put item }.push (.attentionRequired item)

/-- Enriches a captured item only if it has not been resolved or replaced. -/
def replaceAttentionIf (expected item : AttentionRequiredData) : Fleet × Bool :=
  match expected.attentionId with
  | none => (f, false)
  | some id =>
    if item.attentionId ≠ some id then (f, false)
    else if f.attention.get (some id) ≠ some expected then (f, false)
    else if expected ≠ item then
      ({ f with attention := f.attention.put item }.push (.attentionRequired item), true)
    else (f, true)

def setTasks (tasks : List TaskView) : Fleet :=
  { f with tasks }

def syncTasks (tasks : List TaskView) : Fleet :=
  let changed := tasks.filter (· ∉ f.tasks)
  (changed.map TaskView.changed).foldl push { f with tasks }

/-- Shows `view`; publishes its change with `summary`. -/
def setInstance (view : InstanceView) (summary : String) : Fleet :=
  if f.instances.get view.instanceId = some view then f
  else { f with instances := f.instances.put view }.push
    (.instanceChanged ⟨view.instanceId, summary, some view⟩)

/-- Takes a removed instance out of the view together with its needs-you item. -/
def removeInstance (id : String) : Fleet :=
  let f1 := match f.instances.get id with
    | none => f
    | some _ => { f with instances := f.instances.erase id }.push
        (.instanceChanged ⟨id, "removed", none⟩)
  let item := failedAttentionId id
  match f1.attention.get (some item) with
  | none => f1
  | some _ => { f1 with attention := f1.attention.erase (some item) }.push
      (.attentionResolved ⟨item, .unknown⟩)

/-- An item already listed is left as it is. -/
def raise (item : AttentionRequiredData) : Fleet :=
  match item.attentionId with
  | none => f
  | some id =>
    if (f.attention.get (some id)).isSome then f
    else { f with attention := f.attention.put item }.push (.attentionRequired item)

/-- Compares the notification version and consumes its action. -/
def resolveIfCurrent (expected : AttentionRequiredData) (action : AttentionAction) :
    Fleet × Option AttentionRequiredData :=
  match expected.attentionId with
  | none => (f, none)
  | some id =>
    match f.attention.get (some id) with
    | none => (f, none)
    | some current =>
      if sameAttention current expected && current.actions.contains action then
        ({ f with attention := f.attention.erase (some id) }.push
          (.attentionResolved ⟨id, action⟩), some current)
      else (f, none)

/-- Takes the item off the list if `action` is among its actions. -/
def resolve (attentionId : String) (action : AttentionAction) :
    Fleet × Option AttentionRequiredData :=
  match f.attention.get (some attentionId) with
  | none => (f, none)
  | some item =>
    if item.actions.contains action then
      ({ f with attention := f.attention.erase (some attentionId) }.push
        (.attentionResolved ⟨attentionId, action⟩), some item)
    else (f, none)

def restoreReadKeys (keys : List String) : Fleet :=
  { f with readKeys := keys.toFinset }

def markRead (key : String) : Fleet :=
  if key ∈ f.readKeys then f
  else { f with readKeys := insert key f.readKeys }.push (.attentionRead ⟨key⟩)

/-- The fleet view now. -/
def view : FleetView :=
  let attention := orderAttention f.attention.rows
  { readKeys := (attention.filterMap (·.readKey)).filter (· ∈ f.readKeys)
    asOfEventId := f.latest
    teams := f.teams
    tasks := f.tasks
    instances := f.instances.values
    attention }

end Fleet

/-- A call that changes the fleet. -/
inductive Operation where
  | publish (event : DaemonEvent)
  | setTeams (teams : List TeamView)
  | dismiss (id : String)
  | upsertAttention (item : AttentionRequiredData)
  | replaceAttentionIf (expected item : AttentionRequiredData)
  | setTasks (tasks : List TaskView)
  | syncTasks (tasks : List TaskView)
  | setInstance (view : InstanceView) (summary : String)
  | removeInstance (id : String)
  | raise (item : AttentionRequiredData)
  | resolveIfCurrent (expected : AttentionRequiredData) (action : AttentionAction)
  | resolve (attentionId : String) (action : AttentionAction)
  | restoreReadKeys (keys : List String)
  | markRead (key : String)
  deriving DecidableEq

namespace Fleet

def apply (f : Fleet) : Operation → Fleet
  | .publish event => f.publish event
  | .setTeams teams => f.setTeams teams
  | .dismiss id => f.dismiss id
  | .upsertAttention item => f.upsertAttention item
  | .replaceAttentionIf expected item => (f.replaceAttentionIf expected item).1
  | .setTasks tasks => f.setTasks tasks
  | .syncTasks tasks => f.syncTasks tasks
  | .setInstance view summary => f.setInstance view summary
  | .removeInstance id => f.removeInstance id
  | .raise item => f.raise item
  | .resolveIfCurrent expected action => (f.resolveIfCurrent expected action).1
  | .resolve attentionId action => (f.resolve attentionId action).1
  | .restoreReadKeys keys => f.restoreReadKeys keys
  | .markRead key => f.markRead key

def run (f : Fleet) (ops : List Operation) : Fleet :=
  ops.foldl apply f

@[simp] theorem run_nil {f : Fleet} : f.run [] = f := rfl

@[simp] theorem run_append {f : Fleet} {ops ops' : List Operation} :
    f.run (ops ++ ops') = (f.run ops).run ops' :=
  List.foldl_append

@[simp] theorem run_singleton {f : Fleet} {op : Operation} : f.run [op] = f.apply op := rfl

variable {f : Fleet} {event : DaemonEvent}

@[simp] theorem latest_push : (f.push event).latest = f.latest + 1 := rfl
@[simp] theorem base_push : (f.push event).base = f.base := rfl
@[simp] theorem tasks_push : (f.push event).tasks = f.tasks := rfl
@[simp] theorem teams_push : (f.push event).teams = f.teams := rfl
@[simp] theorem instances_push : (f.push event).instances = f.instances := rfl
@[simp] theorem attention_push : (f.push event).attention = f.attention := rfl

theorem log_push : (f.push event).log =
    if retainedEvents < (f.log ++ [EventData.mk (f.latest + 1) event]).length then
      (f.log ++ [EventData.mk (f.latest + 1) event]).tail
    else f.log ++ [EventData.mk (f.latest + 1) event] := rfl

@[simp] theorem live_push : (f.push event).live = f.live ++ [⟨f.latest + 1, event⟩] := rfl

end Fleet

/-- Calls that change one item at a time, each with its event. -/
def Operation.edits : Operation → Bool
  | .publish _ | .setTeams _ | .setTasks _ | .syncTasks _ | .restoreReadKeys _ => false
  | _ => true

namespace Fleet

/-- One change of the view together with the event that carries it. -/
inductive Edit (f : Fleet) : Fleet → Prop
  | listed {item : AttentionRequiredData} {id : String} (h : item.attentionId = some id) :
      Edit f ({ f with attention := f.attention.put item }.push (.attentionRequired item))
  | resolved (id : String) (action : AttentionAction) :
      Edit f ({ f with attention := f.attention.erase (some id) }.push
        (.attentionResolved ⟨id, action⟩))
  | shown (view : InstanceView) (summary : String) :
      Edit f ({ f with instances := f.instances.put view }.push
        (.instanceChanged ⟨view.instanceId, summary, some view⟩))
  | removed (id summary : String) :
      Edit f ({ f with instances := f.instances.erase id }.push
        (.instanceChanged ⟨id, summary, none⟩))
  | read (key : String) :
      Edit f ({ f with readKeys := insert key f.readKeys }.push (.attentionRead ⟨key⟩))

open Relation in
/-- Such a call is a sequence of edits, none when the view already says it. -/
theorem edits_apply {f : Fleet} {op : Operation} (h : op.edits = true) :
    ReflTransGen Edit f (f.apply op) := by
  cases op with
  | publish | setTeams | setTasks | syncTasks | restoreReadKeys => cases h
  | dismiss id =>
    simp only [apply, dismiss]
    split
    · exact .refl
    · exact .single (.resolved id .unknown)
  | upsertAttention item =>
    simp only [apply, upsertAttention]
    split
    · exact .refl
    · rename_i hid
      split_ifs
      · exact .refl
      · exact .single (.listed hid)
  | replaceAttentionIf expected item =>
    simp only [apply, replaceAttentionIf]
    split
    · exact .refl
    · split_ifs with hid _ _
      · exact .refl
      · exact .refl
      · exact .single (.listed (not_not.mp hid))
      · exact .refl
  | setInstance view summary =>
    simp only [apply, setInstance]
    split_ifs
    · exact .refl
    · exact .single (.shown view summary)
  | removeInstance id =>
    simp only [apply, removeInstance]
    have hfirst : ReflTransGen Edit f (match f.instances.get id with
        | none => f
        | some _ => { f with instances := f.instances.erase id }.push
            (.instanceChanged ⟨id, "removed", none⟩)) := by
      split
      · exact .refl
      · exact .single (.removed id "removed")
    split
    · exact hfirst
    · exact hfirst.tail (.resolved _ .unknown)
  | raise item =>
    simp only [apply, raise]
    split
    · exact .refl
    · rename_i hid
      split_ifs
      · exact .refl
      · exact .single (.listed hid)
  | resolveIfCurrent expected action =>
    simp only [apply, resolveIfCurrent]
    split
    · exact .refl
    · split
      · exact .refl
      · split_ifs
        · exact .single (.resolved _ action)
        · exact .refl
  | resolve attentionId action =>
    simp only [apply, resolve]
    split
    · exact .refl
    · split_ifs
      · exact .single (.resolved attentionId action)
      · exact .refl
  | markRead key =>
    simp only [apply, markRead]
    split_ifs
    · exact .refl
    · exact .single (.read key)

/-- What every edit keeps such a call keeps. -/
theorem apply_edits {P : Fleet → Prop} (hedit : ∀ f f', Edit f f' → P f → P f') {f : Fleet}
    {op : Operation} (ho : op.edits = true) (h : P f) : P (f.apply op) := by
  have hrun : ∀ g, Relation.ReflTransGen Edit f g → P g := by
    intro g hg
    induction hg with
    | refl => exact h
    | tail _ he ih => exact hedit _ _ he ih
  exact hrun _ (edits_apply ho)

/-- A property of the log and the counters that `push` keeps is kept by every call. -/
theorem run_log {P : Fleet → Prop} (hpush : ∀ f event, P f → P (f.push event))
    (hview : ∀ f, P f → ∀ f' : Fleet, f'.base = f.base → f'.latest = f.latest →
      f'.log = f.log → f'.live = f.live → P f') {f : Fleet} (ops : List Operation) (h : P f) :
    P (f.run ops) := by
  have hedit : ∀ f f', Edit f f' → P f → P f' := by
    rintro f _ (⟨_⟩ | _ | _ | _ | _) hf <;> exact hpush _ _ (hview _ hf _ rfl rfl rfl rfl)
  have hfold : ∀ (events : List DaemonEvent) (g : Fleet), P g → P (events.foldl push g) := by
    intro events
    induction events with
    | nil => exact fun g hg => hg
    | cons event rest ih => exact fun g hg => ih _ (hpush _ _ hg)
  induction ops generalizing f with
  | nil => exact h
  | cons op ops ih =>
    apply ih
    by_cases ho : op.edits = true
    · exact apply_edits hedit ho h
    · cases op with
      | publish event => exact hpush _ _ h
      | setTeams | setTasks | restoreReadKeys => exact hview _ h _ rfl rfl rfl rfl
      | syncTasks tasks => exact hfold _ _ (hview _ h _ rfl rfl rfl rfl)
      | _ => exact absurd rfl ho

end Fleet

end Agend.Client
