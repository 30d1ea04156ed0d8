import Agend.Engine.Handing

/-! Every program of the engine hands tasks only to instances that it found: its transitions, its
requests and its start. -/
namespace Agend.Engine

open Agend.Library Agend.Pipeline Agend.Runtime Program

variable {T : String → Prop} {g : Seen} {r : TaskRow} {t id : String} {task : Task} {l : Loaded}
  {e : PipelineEvent}

/-! A transition writes the row that was read. -/

/-- What is loaded is the row that is stored. -/
structure Backed (g : Seen) (id : String) (l : Loaded) (r : TaskRow) : Prop where
  row : g.row id = some r
  task : l.task = r.task
  version : l.version = r.version
  taskId : l.state.taskId = id
  pipeline : ∃ snapshot, r.pipeline = some snapshot ∧ l.state.status = snapshot.status

/-- The row was not closed apart from its pipeline. -/
def Aligned (g : Seen) (id : String) : Prop :=
  ∀ r snapshot, g.row id = some r → r.pipeline = some snapshot →
    r.task.status = statusOf snapshot.status

theorem watched_load : Watched (heed T) (load id)
    (After (fun l g' => g' = g ∧ ∃ r, Backed g id l r) fun _ g' => g' = g) g := by
  refine watched_toldThen (c := .loadTask id) (by simp) rfl
    (fun (row : Option TaskRow) w htasks hrow => ?_) fun _ => rfl
  refine Watched.orRaiseThen (fun r hr => ?_) fun _ => rfl
  obtain rfl := hr
  rw [replies_loadTask, World.row, htasks] at hrow
  refine watched_toldThen (c := .loadWorkflow r.task.workflowId r.task.workflowVersion) (by simp)
    rfl (fun (workflow : Option Workflow) _ _ _ => ?_) fun _ => rfl
  cases hl : restored id r workflow with
  | error => exact rfl
  | ok l =>
    obtain ⟨htask, hversion, -, hid, wf, snapshot, -, hsnap, hstate⟩ := restored_eq_ok hl
    exact ⟨rfl, r, hrow.symm, htask, hversion, hid, snapshot, hsnap, by rw [hstate]; rfl⟩

theorem heeds_load : Heeds (heed T) (load id) := fun _ => watched_load.mono fun _ _ _ => trivial

theorem watched_advance (hl : Backed g id l r)
    (ho : r.isOpen = true ∨ r.task.status = statusOf l.state.status) (hT : T id) :
    Watched (heed T) (advance l e) (After (fun x g' => x.1.id = id ∧ ∃ r', g'.row id = some r' ∧
      r'.task.status = statusOf x.2.1.status ∧ r'.pipeline = some x.2.1.snapshot)
        fun _ _ => True) g := by
  have hid : r.task.id = id := (Table.get_eq_some.mp hl.row).2
  refine watched_toldThen (c := .newId) (by simp) rfl (fun _ _ _ _ => ?_) fun _ => trivial
  split
  · exact trivial
  · rename_i next actions he
    set task : Task := { l.task with
      status := statusOf next.status
      mergeCommit := next.mergeCommit } with htask
    have hrow : g.row task.id = some r := by
      rw [htask, hl.task]
      exact hid ▸ hl.row
    refine Watched.bind (R := After (fun x g' => x = true → ∃ r', g'.row id = some r' ∧
      r'.task.status = statusOf next.status ∧ r'.pipeline = some next.snapshot) fun _ _ => True) ?_
      (fun x g' hx => ?_) fun _ _ _ => trivial
    · refine watched_call (c := .advancePipeline task l.version ⟨some next.snapshot, none⟩ _)
        (by simp) (fun i hi => ?_) (fun _ => trivial) fun w a htasks => ?_
      · rw [Call.handsOver, handed_of_held hrow (open_of_step he ho) (by rw [htask, hl.task])] at hi
        cases hi
      · have hrow' : w.row task.id = some r := by rwa [World.row, htasks]
        obtain ⟨progress, hdata, hadv⟩ : ∃ progress : Progress,
            progress.data = ⟨some next.snapshot, none⟩ ∧
            w.advance task r.version ⟨some next.snapshot, none⟩ true =
              (true, w.putRow ⟨task, r.version + 1, some progress⟩) := advance_eq hrow'
        change After _ _ (.ok (w.advance task l.version _ true).1)
          (⟨(w.advance task l.version _ true).2.tasks, g.listed⟩ : Seen) ∧
          Stays T g ⟨(w.advance task l.version _ true).2.tasks, g.listed⟩
        rw [hl.version, hadv, World.putRow, htasks]
        have htid : task.id = id := by rw [htask, hl.task, hid]
        refine ⟨fun _ => ⟨⟨task, r.version + 1, some progress⟩, ?_, rfl, ?_⟩, .put fun hno => ?_⟩
        · rw [Seen.row, Table.get_put]
          exact if_pos htid.symm
        · rw [TaskRow.pipeline]
          exact congrArg TaskProgress.pipeline hdata
        · exact absurd (show T task.id from htid ▸ hT) hno
    · refine Watched.checkThen (fun hwritten => ?_) fun _ => trivial
      exact ⟨by rw [htask, hl.task, hid], hx hwritten⟩

/-- After a transition the task is as its pipeline is. -/
theorem watched_commitTransition (hl : Backed g id l r)
    (ho : r.isOpen = true ∨ r.task.status = statusOf l.state.status) (hT : T id) :
    Watched (heed T) (commitTransition l e)
      (After (fun _ g' => Aligned g' id) fun _ _ => True) g := by
  refine (watched_advance hl ho hT).bind (fun x g' hx => ?_) fun _ _ _ => trivial
  obtain ⟨hid, r', hr', hstatus, hpipeline⟩ := hx
  refine watched_orFail (t := x.1.id) (hid ▸ hT) ?_
  have hsettle : Heeds (heed fun _ => False) (settle x.1 x.2.1 x.2.2) := heeds_settle
  refine ((hsettle g').bounded.wider fun _ _ h => h.wider fun _ => False.elim).mono fun result g'' hg => ?_
  cases result with
  | error => exact trivial
  | ok =>
    intro r'' snapshot hr'' hsnap
    obtain ⟨r0, hr0, hs0, hp0⟩ := hg.2 id r' (fun h => h) hr'
    obtain rfl := Option.some.inj (hr''.symm.trans hr0)
    rw [hp0, hpipeline] at hsnap
    rw [hs0, hstatus, ← Option.some.inj hsnap]
    rfl

theorem watched_team : Watched (heed T) (team t) (fun _ g' => g' = g) g :=
  watched_toldThen (c := .teams) (by simp) rfl (fun (teams : List Team) _ _ _ => by
    cases hfound : teams.find? (·.id = t) with
    | none => rw [Program.orRaise]; exact rfl
    | some => rw [Program.orRaise]; exact rfl) fun _ => rfl

theorem watched_repoWaits : Watched (heed T) (repoWaits t) (fun _ g' => g' = g) g := by
  refine watched_toldThen (c := .settings) (by simp) rfl (fun (me : Settings) _ _ _ => ?_)
    fun _ => rfl
  split
  · exact rfl
  · exact watched_team.bind (fun _ _ hg => hg) fun _ _ hg => hg

/-- What may be written over: the row that was loaded, which was not closed apart from its
pipeline. -/
def Writable (g : Seen) (id : String) (l : Loaded) : Prop :=
  ∃ r, Backed g id l r ∧ (r.isOpen = true ∨ r.task.status = statusOf l.state.status)

theorem watched_observe (hl : Writable g id l) (hT : T id) : Watched (heed T) (observe l e)
    (After (fun l' g' => Writable g' id l') fun _ _ => True) g := by
  refine watched_toldThen (c := .settings) (by simp) rfl (fun (me : Settings) _ _ _ => ?_)
    fun _ => trivial
  split
  · exact hl
  · refine watched_team.bind (fun team g' hg => ?_) fun _ _ _ => trivial
    obtain rfl : g' = g := hg
    split
    · exact hl
    · refine watched_toldThen (c := .revParse _ _) (by simp) rfl (fun (head : String) _ _ _ => ?_)
        fun _ => trivial
      split
      · exact hl
      · refine watched_toldThen (c := .patchId _ _) (by simp) rfl (fun (patch : String) _ _ _ => ?_)
          fun _ => trivial
        obtain ⟨r, hb, ho⟩ := hl
        refine (watched_commitTransition hb ho hT).bind (fun _ g1 hg => ?_) fun _ _ _ => trivial
        rw [hb.taskId]
        refine watched_load.mono fun result g2 hresult => ?_
        cases result with
        | error => exact trivial
        | ok l' =>
          obtain ⟨rfl, r', hb'⟩ := hresult
          obtain ⟨snapshot, hsnap, hstatus⟩ := hb'.pipeline
          exact ⟨r', hb', Or.inr (hstatus ▸ hg r' snapshot hb'.row hsnap)⟩

theorem heeds_event (hT : T id) : Heeds (heed T) (event id e) := by
  intro g
  refine watched_load.bind (fun l g1 hx => ?_) fun _ _ _ => trivial
  obtain ⟨rfl, r, hb⟩ := hx
  refine Watched.checkThen (fun _ => ?_) fun _ => trivial
  refine Watched.checkThen (fun hopen => ?_) fun _ => trivial
  refine watched_repoWaits.bind (fun waits g2 hg => ?_) fun _ _ _ => trivial
  obtain rfl : g2 = g1 := hg
  refine Watched.checkThen (fun _ => ?_) fun _ => trivial
  have hw : Writable g2 id l := ⟨r, hb, Or.inl (by rw [TaskRow.isOpen, ← hb.task]; exact hopen)⟩
  refine (watched_observe hw hT).bind (fun l' g3 hl' => ?_) fun _ _ _ => trivial
  obtain ⟨r', hb', ho'⟩ := hl'
  exact (watched_commitTransition hb' ho' hT).mono fun _ _ _ => trivial

/-! The requests. -/

theorem heeds_knownInstance : Heeds (heed T) (knownInstance t) :=
  (heeds_call (c := .instance_ t) rfl).bind fun _ => .check

theorem heeds_ownedResult {caller : String} {identity : Option ResultIdentity} {review : Bool} :
    Heeds (heed T) (ownedResult caller id identity review) := by
  refine heeds_load.bind fun l => Heeds.check.bind fun _ => Heeds.check.bind fun _ => ?_
  split
  · exact (heeds_call (c := .bindings) rfl).bind fun _ => Heeds.check.bind fun _ => .pure
  · exact Heeds.check.bind fun _ => .pure

theorem heeds_completeWork {product : WorkProduct} (hT : ∀ t, T t) :
    Heeds (heed T) (completeWork l product) :=
  Heeds.orRaise.bind fun _ => heeds_event (hT _)

theorem heeds_reportDone {caller : String} {identity : Option ResultIdentity} (hT : ∀ t, T t) :
    Heeds (heed T) (reportDone caller id identity) := by
  refine heeds_knownInstance.bind fun _ => heeds_ownedResult.bind fun l => ?_
  refine heeds_team.bind fun _ => Heeds.orRaise.bind fun repo => ?_
  refine (heeds_call (c := .bindings) rfl).bind fun _ => Heeds.orRaise.bind fun _ => ?_
  refine Heeds.orRaise.bind fun _ => (heeds_call (c := .settings) rfl).bind fun _ => ?_
  refine Heeds.check.bind fun _ => (heeds_call (c := .revParse _ _) rfl).bind fun _ => ?_
  refine (heeds_call (c := .ancestor _ _ _) rfl).bind fun _ => Heeds.check.bind fun _ => ?_
  exact (heeds_call (c := .patchId _ _) rfl).bind fun _ => heeds_completeWork hT

theorem heeds_review {caller : String} {identity : Option ResultIdentity}
    {reason : Option String} (hT : ∀ t, T t) : Heeds (heed T) (review caller id identity reason) := by
  refine heeds_knownInstance.bind fun _ => Heeds.check.bind fun _ => heeds_ownedResult.bind fun _ => ?_
  refine (heeds_call (c := .bindings) rfl).bind fun _ => Heeds.orRaise.bind fun _ => ?_
  refine Heeds.orRaise.bind fun _ => (heeds_event (hT _)).bind fun _ => ?_
  refine (heeds_call (c := .bindings) rfl).bind fun _ => ?_
  split
  · exact heeds_releaseMode
  · exact .pure

/-- Blocking writes the row that was loaded, for whoever holds it. -/
theorem heeds_block {caller : String} {reason : Option String} (hT : T id) :
    Heeds (heed T) (block caller id reason) := by
  refine heeds_knownInstance.bind fun _ g => ?_
  have howned : Watched (heed T) (owned caller id)
      (After (fun l g' => g' = g ∧ ∃ r, Backed g id l r) fun _ _ => True) g := by
    refine watched_load.bind (fun l g' hx => ?_) fun _ _ _ => trivial
    exact Watched.checkThen (fun _ => hx) fun _ => trivial
  refine howned.bind (fun l g' hx => ?_) fun _ _ _ => trivial
  obtain ⟨rfl, r, hb⟩ := hx
  refine Watched.checkThen (fun _ => ?_) fun _ => trivial
  refine Watched.checkThen (fun _ => ?_) fun _ => trivial
  cases happ : l.task.apply (if reason.isSome then .block else .unblock) with
  | error => exact trivial
  | ok task =>
    obtain ⟨hopen, status, -, rfl⟩ := Task.open_of_apply (by split_ifs <;> simp) happ
    refine watched_toldThen (c := .newId) (by simp) rfl (fun (event : String) _ _ _ => ?_)
      fun _ => trivial
    have hrow : g'.row ({ l.task with status := status } : Task).id = some r := by
      rw [← hb.row, ← (Table.get_eq_some.mp hb.row).2, hb.task]
      rfl
    have hwrite : Watched (heed T) (Store.advanceTask { l.task with status := status } l.version
        { l.progress.data with blockReason := reason } event) (fun _ _ => True) g' := by
      rw [hb.version]
      refine watched_advanceTask hrow (fun i hi => ?_) fun hno => ?_
      · rw [handed_of_held hrow (by rw [TaskRow.isOpen, ← hb.task, hopen]; rfl)
          (by rw [hb.task])] at hi
        cases hi
      · have hid : l.task.id = id := by
          rw [hb.task]
          exact (Table.get_eq_some.mp hb.row).2
        exact absurd (show T l.task.id from hid ▸ hT) hno
    refine hwrite.bind (fun _ g1 _ => ?_) fun _ _ _ => trivial
    refine (Heeds.check.bind fun _ => ?_ : Heeds (heed T) _) g1
    split
    · exact .pure
    · exact .forEach fun _ => heeds_action

theorem heeds_createPipelineTask {pipeline : PipelineSnapshot} (ha : task.assignee = none) :
    Heeds (heed T) (Store.createPipelineTask task pipeline) := by
  intro g
  refine watched_call (by simp) (fun i hi => ?_) (fun _ => trivial) fun w a htasks =>
    ⟨trivial, ?_⟩
  · rw [Call.handsOver, handed_eq_none (Or.inl ha)] at hi
    cases hi
  · change Stays T g ⟨(w.write (w.createPipelineTask task pipeline)).2.tasks, g.listed⟩
    rw [World.createPipelineTask]
    split_ifs with hsome
    · exact .of_tasks htasks
    · change Stays T g ⟨w.tasks.put _, g.listed⟩
      rw [htasks]
      refine .put fun _ r hr => ?_
      have hrow : w.row task.id = some r := by rw [World.row, htasks]; exact hr
      rw [hrow] at hsome
      exact absurd rfl hsome

theorem heeds_createTask {title role teamId : String} {workflowId : Option String}
    (hT : ∀ t, T t) : Heeds (heed T) (createTask title role teamId workflowId) := by
  refine Heeds.check.bind fun _ => heeds_team.bind fun team => ?_
  refine (heeds_call (c := .latestWorkflow _) rfl).bind fun _ => Heeds.orRaise.bind fun workflow => ?_
  refine Heeds.orRaise.bind fun first => Heeds.check.bind fun _ => Heeds.check.bind fun _ => ?_
  have hrest : Heeds (heed T) (do
      let tasks ← Store.tasks
      let taskId := "t-" ++ toString (tasks.length + 1)
      let v ← done (validate workflow)
      Store.createPipelineTask { Task.new taskId title teamId workflow.id workflow.version with
        requiresRepo := workflow.requiresRepo } (PipelineState.new taskId v).snapshot
      event taskId .start) :=
    (heeds_call (c := .tasks) rfl).bind fun _ => Heeds.done.bind fun _ =>
      (heeds_createPipelineTask rfl).bind fun _ => heeds_event (hT _)
  dsimp only
  split
  · exact (heeds_call (c := .settings) rfl).bind fun _ => Heeds.check.bind fun _ =>
      (heeds_call (c := .revParse _ _) rfl).bind fun _ => hrest
  · exact hrest

theorem heeds_addTeam {repo workflowId : Option String} :
    Heeds (heed T) (addTeam t repo workflowId) := by
  refine Heeds.check.bind fun _ => (heeds_call (c := .latestWorkflow _) rfl).bind fun _ => ?_
  refine Heeds.check.bind fun _ => ?_
  dsimp only
  split
  · exact (heeds_call (c := .settings) rfl).bind fun _ => Heeds.check.bind fun _ =>
      (heeds_call (c := .revParse _ _) rfl).bind fun _ => heeds_call (c := .addTeam _) rfl
  · exact heeds_call (c := .addTeam _) rfl

theorem heeds_setTeamWorkflow {workflowId : String} :
    Heeds (heed T) (setTeamWorkflow t workflowId) :=
  heeds_team.bind fun _ => (heeds_call (c := .latestWorkflow _) rfl).bind fun _ =>
    Heeds.orRaise.bind fun _ => Heeds.done.bind fun _ => heeds_call (c := .setTeamWorkflow _ _) rfl

theorem heeds_applyWorkflow {workflow : Workflow} : Heeds (heed T) (applyWorkflow workflow) :=
  Heeds.check.bind fun _ => Heeds.check.bind fun _ =>
    (heeds_call (c := .latestWorkflow _) rfl).bind fun _ => Heeds.done.bind fun _ =>
      heeds_call (c := .saveWorkflow _) rfl

theorem heeds_operatorReview {shown : String} {reason : Option String} (hT : T id) :
    Heeds (heed T) (operatorReview id shown reason) := by
  refine heeds_load.bind fun l => Heeds.check.bind fun _ => Heeds.orRaise.bind fun stage => ?_
  split
  · exact Heeds.check.bind fun _ => heeds_event hT
  · exact .raise

theorem heeds_retry : Heeds (heed T) (retry id) :=
  (heeds_call (c := .loadTask id) rfl).bind fun _ => Heeds.check.bind fun _ =>
    heeds_note.bind fun _ => heeds_load.bind fun _ => heeds_cleanupTerminal.bind fun _ =>
      .forEach fun _ => heeds_action

theorem heeds_checkResult {stageId : String} {attempt : Nat} {head : Option String}
    {result : CheckResult} (hT : T id) :
    Heeds (heed T) (checkResult id stageId attempt head result) := by
  refine heeds_load.bind fun l => ?_
  split
  · split
    · exact heeds_note
    · exact heeds_note
    · exact heeds_event hT
  · exact .pure

theorem heeds_wakeActions {st : PipelineState} {actions : List PipelineAction} (hT : T task.id) :
    Heeds (heed T) (wakeActions task st actions) := by
  induction actions with
  | nil => exact .pure
  | cons a rest ih =>
    rw [wakeActions]
    dsimp only
    split
    case' isTrue => refine (heeds_call (c := .message _) rfl).bind fun sent => ?_
    case' isFalse => refine Heeds.pure.bind fun sent => ?_
    all_goals
      split
      · exact ih
      · refine heeds_action.attempt.bind fun result => ?_
        split
        · exact ih
        · exact heeds_failRestore hT

theorem heeds_wakeTask (hT : T task.id) : Heeds (heed T) (wakeTask task) := by
  intro g
  refine watched_repoWaits.bind (fun waits g' _ => ?_) fun _ _ _ => trivial
  split
  · exact trivial
  · refine (heeds_load.bind fun l => ?_ : Heeds (heed T) _) g'
    split
    · exact .pure
    · exact heeds_wakeActions hT

theorem heeds_wake (hT : ∀ t, T t) : Heeds (heed T) wake :=
  (heeds_call (c := .tasks) rfl).bind fun _ =>
    (Heeds.forEach fun _ => heeds_cleanupTerminal).bind fun _ =>
      (heeds_call (c := .tasks) rfl).bind fun _ => .forEach fun _ => heeds_wakeTask (hT _)

theorem heeds_ensureBinding {repo : String} {b : BindingRow} (hT : T b.task) :
    Heeds (heed T) (ensureBinding repo b) := by
  refine (heeds_call (c := .ensure repo b) rfl).attempt.bind fun result => ?_
  split
  · exact .pure
  · exact (heeds_failRestore hT).bind fun _ => heeds_releaseMode.attempt.bind fun _ => .pure

theorem heeds_reconcileMerging {repo : String} {st : PipelineState} {b : BindingRow}
    (hT : T b.task) : Heeds (heed T) (reconcileMerging repo st b) := by
  refine (heeds_call (c := .findMerge _ _ _ _) rfl).attempt.bind fun found => ?_
  split
  · exact .pure
  · exact heeds_ensureBinding hT
  · split
    · exact heeds_note
    · exact heeds_failRestore hT

theorem heeds_reconcileOpen {repo : String} {b : BindingRow} (hT : T b.task) :
    Heeds (heed T) (reconcileOpen repo task b) := by
  refine heeds_load.attempt.bind fun loaded => ?_
  split
  · exact heeds_ensureBinding hT
  · split
    · refine heeds_releaseMode.attempt.bind fun result => ?_
      split
      · exact .pure
      · exact heeds_failRestore hT
    · split
      · exact .pure
      · split
        · exact heeds_reconcileMerging hT
        · exact heeds_ensureBinding hT

theorem heeds_reconcileBinding {tasks : List Task} {b : BindingRow} (hT : T b.task) :
    Heeds (heed T) (reconcileBinding tasks b) := by
  unfold reconcileBinding
  split
  · exact .pure
  · split
    · exact heeds_cleanupTerminal
    · refine heeds_team.bind fun _ => (heeds_call (c := .settings) rfl).bind fun _ => ?_
      split
      · exact heeds_reconcileOpen hT
      · exact .pure

theorem heeds_freeClosed {bindings : List BindingRow} : Heeds (heed T) (freeClosed bindings task) := by
  unfold freeClosed
  split
  · intro g
    refine watched_toldThen (c := .loadTask task.id) (by simp) rfl
      (fun (row : Option TaskRow) w htasks hrow => ?_) fun _ => trivial
    refine Watched.orRaiseThen (fun r hr => ?_) fun _ => trivial
    obtain rfl := hr
    rw [replies_loadTask, World.row, htasks] at hrow
    exact watched_free hrow.symm fun _ => .check
  · exact .pure

theorem heeds_reconcileBindings (hT : ∀ t, T t) : Heeds (heed T) reconcileBindings :=
  (heeds_call (c := .tasks) rfl).bind fun _ => (heeds_call (c := .bindings) rfl).bind fun _ =>
    (Heeds.forEach fun _ => heeds_reconcileBinding (hT _)).bind fun _ =>
      (heeds_call (c := .members) rfl).bind fun _ => (heeds_call (c := .bindings) rfl).bind fun _ =>
        (Heeds.forEach fun _ => heeds_freeClosed).bind fun _ =>
          (heeds_call (c := .teams) rfl).bind fun _ => heeds_call (c := .housekeeping) rfl

theorem heeds_serve (request : Request) : Heeds (heed fun _ => True) (serve request) := by
  cases request with
  | done => exact heeds_reportDone fun _ => trivial
  | result =>
    exact heeds_knownInstance.bind fun _ => heeds_ownedResult.bind fun _ =>
      heeds_completeWork fun _ => trivial
  | review => exact heeds_review fun _ => trivial
  | block => exact heeds_block trivial
  | createTask => exact heeds_createTask fun _ => trivial
  | cancel | event => exact heeds_event trivial
  | addTeam => exact heeds_addTeam
  | joinTeam =>
    exact heeds_team.bind fun _ => Heeds.check.bind fun _ => heeds_call (c := .joinTeam _ _ _) rfl
  | setTeamWorkflow => exact heeds_setTeamWorkflow
  | applyWorkflow => exact heeds_applyWorkflow
  | operatorReview => exact heeds_operatorReview trivial
  | acknowledge =>
    exact (heeds_call (c := .loadTask _) rfl).bind fun _ => Heeds.orRaise.bind fun _ => heeds_taskNote
  | retry => exact heeds_retry
  | checkResult => exact heeds_checkResult trivial
  | wake => exact heeds_wake fun _ => trivial
  | daily => exact heeds_reconcileBindings fun _ => trivial
  | addInstance agent => exact heeds_call (c := .addInstance agent) rfl

/-! The start. -/

/-- A task that is open when its turn comes is started, or asked again. -/
theorem watched_bootTask (hr : g.row task.id = some r) (ho : r.isOpen = true) :
    Watched (heed (· = task.id)) (bootTask task) (fun _ _ => True) g := by
  refine watched_repoWaits.bind (fun waits g' hg => ?_) fun _ _ _ => trivial
  obtain rfl : g' = g := hg
  split
  · exact trivial
  · have hresume : Watched (heed (· = task.id)) (resume task) (fun _ _ => True) g' := by
      refine watched_load.bind (fun l g1 hx => ?_) fun _ _ _ => trivial
      obtain ⟨rfl, r', hb⟩ := hx
      split
      · obtain rfl := Option.some.inj (hr.symm.trans hb.row)
        exact (watched_commitTransition (T := (· = task.id)) hb (Or.inl ho) rfl).mono
          fun _ _ _ => trivial
      · exact Heeds.forEach (fun _ => heeds_action) g1
    refine hresume.attemptThen fun result g1 _ => ?_
    split
    · exact trivial
    · refine ((heeds_call (c := .loadTask task.id) rfl).bind fun row => ?_ : Heeds _ _) g1
      split
      · exact heeds_failRestore rfl
      · exact .pure

/-- The tasks whose turn has not come are open still. -/
structure Awaiting (rest : List Task) (g : Seen) : Prop where
  nodup : (rest.map (·.id)).Nodup
  row : ∀ t ∈ rest, ∃ r, g.row t.id = some r ∧ r.isOpen = true

theorem Awaiting.boot {rest : List Task} (h : Awaiting (task :: rest) g) :
    Watched (heed fun _ => True) (bootTask task)
      (After (fun _ => Awaiting rest) fun _ _ => True) g := by
  obtain ⟨hno, hnodup⟩ := List.nodup_cons.mp h.nodup
  obtain ⟨r, hr, ho⟩ := h.row task List.mem_cons_self
  refine ((watched_bootTask hr ho).bounded.wider fun _ _ hs => hs.wider fun _ _ => trivial).mono
    fun result g' hg => ?_
  cases result with
  | error => exact trivial
  | ok =>
    refine ⟨hnodup, fun t ht => ?_⟩
    obtain ⟨r0, hr0, ho0⟩ := h.row t (List.mem_cons_of_mem _ ht)
    have hne : t.id ≠ task.id := fun he => hno (List.mem_map.mpr ⟨t, ht, he⟩)
    obtain ⟨r1, hr1, hs1, -⟩ := hg.2 t.id r0 hne hr0
    exact ⟨r1, hr1, by rw [TaskRow.isOpen, hs1]; exact ho0⟩

theorem awaiting_active {w : World} (h : w.tasks = g.tasks) :
    Awaiting ((w.tasks.values.map (·.task)).filter isActive) g := by
  refine ⟨?_, fun t ht => ?_⟩
  · refine List.Nodup.sublist (List.filter_sublist.map _) ?_
    rw [List.map_map]
    exact Table.nodup_values
  · obtain ⟨hmem, hactive⟩ := List.mem_filter.mp ht
    obtain ⟨r, hr, rfl⟩ := List.mem_map.mp hmem
    refine ⟨r, ?_, ?_⟩
    · rw [Seen.row, ← h]
      exact Table.get_of_mem (Table.mem_values.mp hr)
    · unfold isActive at hactive
      rw [TaskRow.isOpen]
      cases hstatus : r.task.status <;> simp [hstatus] at hactive <;> rfl

theorem heeds_boot : Heeds (heed fun _ => True) boot := by
  refine (heeds_call (c := .openGit) rfl).bind fun _ => ?_
  refine (Heeds.forEach fun workflow => ?_).bind fun _ => ?_
  · refine (heeds_call (c := .latestWorkflow _) rfl).bind fun found => ?_
    split
    · exact heeds_call (c := .saveWorkflow _) rfl
    · exact .pure
  refine (heeds_call (c := .tasks) rfl).bind fun tasks => ?_
  refine (Heeds.forEach fun task => ?_).bind fun _ => ?_
  · refine heeds_load.attempt.bind fun result => ?_
    split
    · exact .pure
    · exact heeds_failRestore trivial
  refine (heeds_reconcileBindings fun _ => trivial).bind fun _ => ?_
  refine (heeds_call (c := .tasks) rfl).bind fun tasks => ?_
  refine (Heeds.forEach fun _ => heeds_cleanupTerminal).bind fun _ g => ?_
  refine watched_toldThen (c := .tasks) (by simp) rfl
    (fun (tasks : List Task) w htasks hreply => ?_) fun _ => trivial
  obtain rfl := replies_tasks.mp hreply
  exact Watched.forEach (fun task rest g h => h.boot) (awaiting_active htasks)

end Agend.Engine
