import Agend.Client.View

/-! What the events say about the view: a copy by id that follows them, and how far it agrees. -/
namespace Agend.Client

/-- A copy of the view, item by item. -/
structure Replica where
  instances : String → Option InstanceView
  tasks : String → Option TaskView
  attention : String → Option AttentionRequiredData

namespace Replica

/-- What an event says about the view. -/
def apply (m : Replica) : DaemonEvent → Replica
  | .instanceChanged data =>
    { m with instances := Function.update m.instances data.instanceId data.inst }
  | .taskChanged data =>
    match data.task with
    | some task => { m with tasks := Function.update m.tasks task.taskId (some task) }
    | none => m
  | .attentionRequired data =>
    match data.attentionId with
    | some id => { m with attention := Function.update m.attention id (some data) }
    | none => m
  | .attentionResolved data =>
    { m with attention := Function.update m.attention data.attentionId none }
  | _ => m

def follow (m : Replica) (events : List EventData) : Replica :=
  (events.map (·.event)).foldl apply m

/-- Everything is stored under its own id. -/
structure Keyed (m : Replica) : Prop where
  instances : ∀ id view, m.instances id = some view → view.instanceId = id
  tasks : ∀ id task, m.tasks id = some task → task.taskId = id
  attention : ∀ id item, m.attention id = some item → item.attentionId = some id

variable {m : Replica} {events events' : List EventData}

theorem follow_append : m.follow (events ++ events') = (m.follow events).follow events' := by
  rw [follow, List.map_append, List.foldl_append]
  rfl

end Replica

/-- Events that name the item they carry, as every event of the view does. -/
def DaemonEvent.Keyed : DaemonEvent → Prop
  | .attentionRequired data => data.attentionId.isSome = true
  | .instanceChanged data => ∀ view ∈ data.inst, view.instanceId = data.instanceId
  | .askUpdated _ => False
  | _ => True

theorem Replica.Keyed.apply {m : Replica} (h : m.Keyed) {event : DaemonEvent} (he : event.Keyed) :
    (m.apply event).Keyed := by
  cases event with
  | attentionRead | messageReceived | askUpdated | unknown => exact h
  | attentionRequired data =>
    simp only [Replica.apply]
    split
    · rename_i id hid
      refine ⟨h.instances, h.tasks, fun j item hj => ?_⟩
      simp only [Function.update_apply] at hj
      split_ifs at hj with hji
      · rw [← Option.some.inj hj, hid, hji]
      · exact h.attention j item hj
    · exact h
  | taskChanged data =>
    simp only [Replica.apply]
    split
    · refine ⟨h.instances, fun j task hj => ?_, h.attention⟩
      simp only [Function.update_apply] at hj
      split_ifs at hj with hji
      · rw [← Option.some.inj hj, hji]
      · exact h.tasks j task hj
    · exact h
  | instanceChanged data =>
    refine ⟨fun j view hj => ?_, h.tasks, h.attention⟩
    simp only [Replica.apply, Function.update_apply] at hj
    split_ifs at hj with hji
    · rw [he view hj, hji]
    · exact h.instances j view hj
  | attentionResolved data =>
    refine ⟨h.instances, h.tasks, fun j item hj => ?_⟩
    simp only [Replica.apply, Function.update_apply] at hj
    split_ifs at hj
    exact h.attention j item hj

namespace Fleet

/-- The view, item by item. -/
def replica (f : Fleet) : Replica where
  instances := f.instances.get
  tasks := fun id => f.tasks.find? (·.taskId = id)
  attention := fun id => f.attention.get (some id)

/-- Tasks have distinct ids and needs-you items have one. -/
structure Rows (f : Fleet) : Prop where
  tasks : (f.tasks.map (·.taskId)).Nodup
  attention : ∀ item ∈ f.attention.rows, item.attentionId.isSome = true

end Fleet

/-- The task lists of a call come from rows with distinct ids. -/
def Operation.Rows : Operation → Prop
  | .setTasks tasks | .syncTasks tasks => (tasks.map (·.taskId)).Nodup
  | _ => True

/-- The calls that a running daemon makes to change the view. -/
def Operation.Running : Operation → Prop
  | .publish _ | .setTasks _ | .restoreReadKeys _ => False
  | op => op.Rows

def Operation.teams? : Operation → Option (List TeamView)
  | .setTeams teams => some teams
  | _ => none

def Operation.tasks? : Operation → Option (List TaskView)
  | .syncTasks tasks => some tasks
  | _ => none

theorem Operation.edits_none {op : Operation} (h : op.edits = true) :
    op.teams? = none ∧ op.tasks? = none := by
  cases op <;> first | exact ⟨rfl, rfl⟩ | cases h

namespace Fleet

variable {f f0 f' : Fleet} {ops : List Operation} {op : Operation}

/-- Pushed events follow what was sent and touch nothing else of the view. -/
theorem foldl_push (events : List DaemonEvent) : ∃ new,
    (events.foldl push f).live = f.live ++ new ∧ new.map (·.event) = events ∧
    (events.foldl push f).tasks = f.tasks ∧ (events.foldl push f).teams = f.teams ∧
    (events.foldl push f).instances = f.instances ∧
    (events.foldl push f).attention = f.attention := by
  induction events generalizing f with
  | nil => exact ⟨[], by simp⟩
  | cons event rest ih =>
    obtain ⟨new, hlive, hnew, htasks, hteams, hinstances, hattention⟩ := ih (f := f.push event)
    refine ⟨⟨f.latest + 1, event⟩ :: new, ?_, ?_, htasks, hteams, hinstances, hattention⟩
    · rw [List.foldl_cons, hlive, live_push, List.append_assoc]
      rfl
    · rw [List.map_cons, hnew]

theorem Rows.edit (h : f.Rows) (he : Edit f f') : f'.Rows := by
  cases he with
  | @listed item id hid =>
    refine ⟨h.tasks, fun d hd => ?_⟩
    rcases Library.Table.mem_put.mp hd with rfl | ⟨hd, -⟩
    · exact Option.isSome_of_eq_some hid
    · exact h.attention d hd
  | resolved id action =>
    exact ⟨h.tasks, fun d hd => h.attention d (Library.Table.mem_erase.mp hd).1⟩
  | shown | removed | read => exact ⟨h.tasks, h.attention⟩

theorem Rows.apply (h : f.Rows) (ho : op.Rows) : (f.apply op).Rows := by
  by_cases hedit : op.edits = true
  · exact apply_edits (fun _ _ he h => h.edit he) hedit h
  · cases op with
    | publish | setTeams | restoreReadKeys => exact ⟨h.tasks, h.attention⟩
    | setTasks tasks => exact ⟨ho, h.attention⟩
    | syncTasks tasks =>
      obtain ⟨-, -, -, htasks, -, -, hattention⟩ := foldl_push (f := { f with tasks })
        ((tasks.filter (· ∉ f.tasks)).map TaskView.changed)
      refine ⟨?_, ?_⟩
      · simp only [Fleet.apply, syncTasks]
        rw [htasks]
        exact ho
      · simp only [Fleet.apply, syncTasks]
        rw [hattention]
        exact h.attention
    | _ => exact absurd rfl hedit

theorem Rows.run (h : f.Rows) (ho : ∀ op ∈ ops, op.Rows) : (f.run ops).Rows := by
  induction ops generalizing f with
  | nil => exact h
  | cons op ops ih =>
    obtain ⟨hop, hops⟩ := List.forall_mem_cons.mp ho
    exact ih (h.apply hop) hops

theorem rows_new {boot : Nat} : (new boot).Rows :=
  ⟨List.nodup_nil, fun _ h => nomatch h⟩

theorem keyed_replica : f.replica.Keyed where
  instances := fun id view h => (Library.Table.get_eq_some.mp h).2
  tasks := fun id task h => by
    have hp := List.find?_some (show f.tasks.find? (·.taskId = id) = some task from h)
    exact of_decide_eq_true hp
  attention := fun id item h => (Library.Table.get_eq_some.mp h).2

/-- What has been announced since `f0`: the copy of `f0` that followed it agrees with `f`, apart
from tasks that are listed no more. -/
structure Announced (f0 : Fleet) (listed : List (List TaskView)) (f : Fleet)
    (new : List EventData) : Prop where
  live : f.live = f0.live ++ new
  keyed : ∀ e ∈ new, e.event.Keyed
  instances : ∀ id, (f0.replica.follow new).instances id = f.instances.get id
  attention : ∀ id, (f0.replica.follow new).attention id = f.attention.get (some id)
  tasks : ∀ task ∈ f.tasks, (f0.replica.follow new).tasks task.taskId = some task
  known : ∀ id, ((f0.replica.follow new).tasks id).isSome = true ↔
    ∃ tasks ∈ listed, ∃ task ∈ tasks, task.taskId = id
  rows : f.Rows

variable {listed : List (List TaskView)} {new : List EventData}

namespace Announced

theorem refl (h : f.Rows) : Announced f [f.tasks] f [] where
  live := (List.append_nil _).symm
  keyed := fun _ h => nomatch h
  instances := fun _ => rfl
  attention := fun _ => rfl
  tasks := fun task ht => by
    have hget := Library.Table.get_of_mem (t := ⟨f.tasks, h.tasks⟩) ht
    exact hget
  known := fun id => by
    simp [Replica.follow, replica, List.find?_isSome]
  rows := h

/-- An edit is carried by its event. -/
theorem edit (h : Announced f0 listed f new) (he : Edit f f') :
    ∃ new', Announced f0 listed f' new' := by
  have hrows := h.rows.edit he
  have grow : ∀ {event : DaemonEvent}, f'.live = f.live ++ [⟨f.latest + 1, event⟩] →
      event.Keyed → f'.tasks = f.tasks →
      (∀ m : Replica, (m.apply event).tasks = m.tasks) →
      (∀ id, ((f0.replica.follow new).apply event).instances id = f'.instances.get id) →
      (∀ id, ((f0.replica.follow new).apply event).attention id = f'.attention.get (some id)) →
      ∃ new', Announced f0 listed f' new' := by
    intro event hlive hkeyed htasks hsame hi ha
    have hfollow : f0.replica.follow (new ++ [⟨f.latest + 1, event⟩]) =
        (f0.replica.follow new).apply event := Replica.follow_append
    refine ⟨new ++ [⟨f.latest + 1, event⟩], ?_, ?_, hfollow ▸ hi, hfollow ▸ ha, ?_, ?_, hrows⟩
    · rw [hlive, h.live, List.append_assoc]
    · intro e hm
      rcases List.mem_append.mp hm with hm | hm
      · exact h.keyed e hm
      · rw [List.mem_singleton.mp hm]
        exact hkeyed
    · rw [hfollow, hsame, htasks]
      exact h.tasks
    · rw [hfollow, hsame]
      exact h.known
  cases he with
  | @listed item id hid =>
    refine grow rfl (Option.isSome_of_eq_some hid) rfl ?_ ?_ ?_
    · intro m
      simp only [Replica.apply, hid]
    · intro j
      simp only [Replica.apply, hid, instances_push]
      exact h.instances j
    · intro j
      simp only [Replica.apply, hid, attention_push, Library.Table.get_put, Function.update_apply,
        Option.some.injEq, h.attention j]
  | resolved id action =>
    refine grow rfl trivial rfl (fun _ => rfl) h.instances fun j => ?_
    simp only [Replica.apply, attention_push, Library.Table.get_erase, Function.update_apply,
      Option.some.injEq, h.attention j]
  | shown view summary =>
    refine grow rfl ?_ rfl (fun _ => rfl) ?_ h.attention
    · rintro v ⟨⟩
      rfl
    · intro j
      simp only [Replica.apply, instances_push, Library.Table.get_put, Function.update_apply,
        h.instances j]
  | removed id summary =>
    refine grow rfl ?_ rfl (fun _ => rfl) ?_ h.attention
    · rintro v ⟨⟩
    · intro j
      simp only [Replica.apply, instances_push, Library.Table.get_erase, Function.update_apply,
        h.instances j]
  | read key =>
    exact grow rfl trivial rfl (fun _ => rfl) h.instances h.attention

/-- Following the changed tasks puts each of them under its id. -/
theorem tasks_follow (m : Replica) {changed : List TaskView}
    (hd : (changed.map (·.taskId)).Nodup) :
    let m' := (changed.map TaskView.changed).foldl Replica.apply m
    m'.instances = m.instances ∧ m'.attention = m.attention ∧
      (∀ task ∈ changed, m'.tasks task.taskId = some task) ∧
      ∀ id, (∀ task ∈ changed, task.taskId ≠ id) → m'.tasks id = m.tasks id := by
  induction changed generalizing m with
  | nil => exact ⟨rfl, rfl, fun _ h => (nomatch h), fun _ _ => rfl⟩
  | cons task rest ih =>
    obtain ⟨hfresh, hrest⟩ := List.nodup_cons.mp hd
    obtain ⟨hi, ha, hin, hout⟩ := ih (m.apply task.changed) hrest
    have hself : (m.apply task.changed).tasks = Function.update m.tasks task.taskId (some task) :=
      rfl
    refine ⟨hi, ha, fun t ht => ?_, fun id hid => ?_⟩
    · rcases List.mem_cons.mp ht with rfl | ht
      · have hne : ∀ t' ∈ rest, t'.taskId ≠ t.taskId := fun t' ht' he =>
          hfresh (List.mem_map.mpr ⟨t', ht', he⟩)
        rw [List.map_cons, List.foldl_cons, hout _ hne, hself, Function.update_self]
      · exact hin t ht
    · obtain ⟨hne, hrestne⟩ := List.forall_mem_cons.mp hid
      rw [List.map_cons, List.foldl_cons, hout id hrestne, hself,
        Function.update_of_ne (Ne.symm hne)]

/-- New and changed tasks are announced; what is listed no more is not. -/
theorem sync (h : Announced f0 listed f new) {tasks : List TaskView}
    (hd : (tasks.map (·.taskId)).Nodup) :
    ∃ new', Announced f0 (listed ++ [tasks]) (f.syncTasks tasks) new' := by
  have hsub : (tasks.filter (· ∉ f.tasks)).map (·.taskId) |>.Nodup :=
    (List.filter_sublist.map _).nodup hd
  obtain ⟨more, hlive, hmore, htasks, -, hinstances, hattention⟩ := foldl_push
    (f := { f with tasks }) ((tasks.filter (· ∉ f.tasks)).map TaskView.changed)
  have hfollow : f0.replica.follow (new ++ more) =
      ((tasks.filter (· ∉ f.tasks)).map TaskView.changed).foldl Replica.apply
        (f0.replica.follow new) := by
    rw [Replica.follow_append, Replica.follow, hmore]
  obtain ⟨hi, ha, hin, hout⟩ := tasks_follow (f0.replica.follow new) hsub
  have hcurrent : ∀ task ∈ tasks,
      (f0.replica.follow (new ++ more)).tasks task.taskId = some task := by
    intro task ht
    rw [hfollow]
    by_cases hold : task ∈ f.tasks
    · rw [hout, h.tasks task hold]
      intro t ht' he
      obtain ⟨ht', hnew⟩ := List.mem_filter.mp ht'
      have heq := List.inj_on_of_nodup_map hd ht' ht he
      rw [heq] at hnew
      exact absurd hold (by simpa using hnew)
    · exact hin task (List.mem_filter.mpr ⟨ht, by simpa using hold⟩)
  refine ⟨new ++ more, ?_, ?_, ?_, ?_, ?_, ?_, ?_⟩
  · rw [syncTasks, hlive, h.live, List.append_assoc]
  · intro e he
    rcases List.mem_append.mp he with he | he
    · exact h.keyed e he
    · have hm : e.event ∈ more.map (·.event) := List.mem_map_of_mem he
      rw [hmore] at hm
      obtain ⟨task, -, hev⟩ := List.mem_map.mp hm
      rw [← hev]
      trivial
  · intro id
    rw [hfollow, hi, syncTasks, hinstances]
    exact h.instances id
  · intro id
    rw [hfollow, ha, syncTasks, hattention]
    exact h.attention id
  · rw [syncTasks, htasks]
    exact hcurrent
  · intro id
    by_cases hid : ∃ task ∈ tasks, task.taskId = id
    · obtain ⟨task, ht, rfl⟩ := hid
      rw [hcurrent task ht]
      exact ⟨fun _ => ⟨tasks, by simp, task, ht, rfl⟩, fun _ => rfl⟩
    · have hne : ∀ task ∈ tasks, task.taskId ≠ id := fun task ht he => hid ⟨task, ht, he⟩
      rw [hfollow, hout id fun task ht => hne task (List.mem_of_mem_filter ht), h.known id]
      constructor
      · rintro ⟨l, hl, task, ht, he⟩
        exact ⟨l, List.mem_append_left _ hl, task, ht, he⟩
      · rintro ⟨l, hl, task, ht, he⟩
        rcases List.mem_append.mp hl with hl | hl
        · exact ⟨l, hl, task, ht, he⟩
        · rw [List.mem_singleton.mp hl] at ht
          exact absurd ⟨task, ht, he⟩ hid
  · exact h.rows.apply (show (Operation.syncTasks tasks).Rows from hd)

/-- The run rule: what a running daemon does is announced. -/
theorem run (h : Announced f0 listed f new) (ho : ∀ op ∈ ops, op.Running) :
    ∃ new', Announced f0 (listed ++ ops.filterMap (·.tasks?)) (f.run ops) new' := by
  induction ops generalizing f listed new with
  | nil => exact ⟨new, by simpa using h⟩
  | cons op ops ih =>
    obtain ⟨hop, hops⟩ := List.forall_mem_cons.mp ho
    by_cases hedit : op.edits = true
    · obtain ⟨new1, h1⟩ := apply_edits (P := fun f => ∃ new, Announced f0 listed f new)
        (fun _ _ he h => h.elim fun _ h => h.edit he) hedit ⟨new, h⟩
      rw [List.filterMap_cons_none (Operation.edits_none hedit).2]
      exact ih h1 hops
    · cases op with
      | publish | setTasks | restoreReadKeys => cases hop
      | setTeams teams =>
        have h1 : Announced f0 listed (f.setTeams teams) new :=
          ⟨h.live, h.keyed, h.instances, h.attention, h.tasks, h.known,
            ⟨h.rows.tasks, h.rows.attention⟩⟩
        exact ih h1 hops
      | syncTasks tasks =>
        obtain ⟨new1, h1⟩ := h.sync hop
        obtain ⟨new2, h2⟩ := ih h1 hops
        refine ⟨new2, ?_⟩
        rw [List.filterMap_cons_some (rfl : (Operation.syncTasks tasks).tasks? = some tasks),
          ← List.singleton_append, ← List.append_assoc]
        exact h2
      | _ => exact absurd rfl hedit

end Announced

/-- The teams and the tasks of the view are those last set. -/
theorem run_last (ho : ∀ op ∈ ops, op.Running) :
    (f.run ops).teams = ((ops.filterMap (·.teams?)).getLast?).getD f.teams ∧
    (f.run ops).tasks = ((ops.filterMap (·.tasks?)).getLast?).getD f.tasks := by
  induction ops generalizing f with
  | nil => exact ⟨rfl, rfl⟩
  | cons op ops ih =>
    obtain ⟨hop, hops⟩ := List.forall_mem_cons.mp ho
    have hrun : f.run (op :: ops) = (f.apply op).run ops := rfl
    rw [hrun]
    obtain ⟨hteams, htasks⟩ := ih (f := f.apply op) hops
    by_cases hedit : op.edits = true
    · have hsame := apply_edits (P := fun g => g.teams = f.teams ∧ g.tasks = f.tasks)
        (by rintro g _ (⟨_⟩ | _ | _ | _ | _) hg <;> exact hg) hedit ⟨rfl, rfl⟩
      obtain ⟨hnt, hns⟩ := Operation.edits_none hedit
      rw [List.filterMap_cons_none hnt, List.filterMap_cons_none hns, hteams, htasks, hsame.1,
        hsame.2]
      exact ⟨rfl, rfl⟩
    · cases op with
      | publish | setTasks | restoreReadKeys => cases hop
      | setTeams teams =>
        refine ⟨?_, htasks⟩
        rw [hteams, List.filterMap_cons_some (rfl : (Operation.setTeams teams).teams? = some teams),
          List.getLast?_cons, Option.getD_some]
        rfl
      | syncTasks tasks =>
        obtain ⟨-, -, -, hfin, hfinTeams, -, -⟩ := foldl_push (f := { f with tasks })
          ((tasks.filter (· ∉ f.tasks)).map TaskView.changed)
        refine ⟨?_, ?_⟩
        · rw [hteams]
          congr 1
        · rw [htasks, List.filterMap_cons_some (rfl : (Operation.syncTasks tasks).tasks? = some tasks),
            List.getLast?_cons, Option.getD_some]
          congr 1
      | _ => exact absurd rfl hedit

end Fleet

end Agend.Client
