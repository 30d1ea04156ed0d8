import Agend.Engine.Serving

/-! The requests that ask again for what is outstanding, and those that write rows of their own. -/
namespace Agend.Engine

open Agend.Library Agend.Pipeline Agend.Runtime Program

variable {k : Terms} {R : World → World → Prop} [IsPreorder World R] {w w' : World} {r : TaskRow}
  {v : ValidatedWorkflow} {st : PipelineState} {id t : String} {l : Loaded} {task : Task}

/-- A closed task whose stored pipeline still waits for somebody. -/
structure Stranded (w : World) (id : String) (review : Bool) (r : TaskRow) (v : ValidatedWorkflow)
    (st : PipelineState) : Prop where
  standing : Standing w r v st
  id : r.id = id
  closed : r.isOpen = false
  running : st.status = .running
  stage : Dispatchable st review

/-- Asking again for the work of a task repeats what was sent. -/
structure Settled (w : World) (id : String) : Prop where
  head : ¬ Behind w id
  closed : ∀ r v st, Stranded w id false r v st →
    w.messages.get (dispatchId (ticket st) false "") = none

/-- The condition for asking again for what a task waits for. -/
structure Resumable (k : Terms) (w : World) (id : String) : Prop where
  steady : k.steady → Settled w id
  prompt : k.prompt → ∀ r v st, ¬ Stranded w id true r v st

theorem Stranded.back {review : Bool} (hs : Stranded w' id review r v st) (h : Tidies t w w') :
    ∃ r0, Stranded w id review r0 v st := by
  obtain ⟨r0, hs0, hid, hcase⟩ := hs.standing.back h fun _ _ he => ⟨he.ages, he.pipeline⟩
  refine ⟨r0, hs0, hid.trans hs.id, ?_, hs.running, hs.stage⟩
  rcases hcase with rfl | he
  · exact hs.closed
  · rw [← isOpen_eq he.status]
    exact hs.closed

theorem Resumable.tidies (h : Resumable k w id) (hm : Tidies t w w') : Resumable k w' id := by
  refine ⟨fun hst => ⟨fun hb => ?_, fun r v st hs => ?_⟩, fun hp r v st hs => ?_⟩
  · exact (h.steady hst).head (hb.back hm (fun _ _ _ he => ⟨he.ages, he.pipeline⟩) fun _ hf => hf)
  · obtain ⟨r0, hs0⟩ := hs.back hm
    rcases hm.message (dispatchId (ticket st) false "") with he | ⟨hf, -⟩
    · rw [he]
      exact (h.steady hst).closed r0 v st hs0
    · exact hf.elim
  · obtain ⟨r0, hs0⟩ := hs.back hm
    exact h.prompt hp r0 v st hs0

/-- What is outstanding is asked for again. -/
theorem holds_outstanding (hc : Calm k w) (hr : Resumable k w id) (hs : Serves w task st r v)
    (hid : task.id = id) :
    Holds (k.contract.within (Assigns id)) (forEach (action task st) st.outstandingActions)
      (fun _ s => Calm k s) w := by
  subst hid
  refine Holds.of_safe fun ho => ?_
  have hid : r.id = task.id := hs.id
  have hbatch := batch_outstandingActions hs.standing.invariant
  have hacts := holds_actions (k := k) (w := w) hbatch (fun hcl r' hr' => ?_)
    fun ⟨a, ha, hda⟩ => ⟨r, hs, fun hst hd hu => ?_, fun hp hd => ?_⟩
  · exact hacts.bounded.mono fun _ _ _ hres => hc.fresher hres.2.2
  · rw [← hid, hs.standing.row] at hr'
    obtain rfl := Option.some.inj hr'
    exact hs.closed hcl
  · have hrun := (hbatch.live a ha hda).running
    have hset := hr.steady hst
    cases hopen : r.isOpen with
    | true => exact repeats_of_open ho hu hs hopen hrun hd hset.head
    | false => exact repeats_of_unsent (hset.closed r v st ⟨hs.standing, hid, hopen, hrun, hd⟩)
  · refine ⟨?_, hc hp _⟩
    cases hopen : r.isOpen with
    | true => rfl
    | false =>
      have hrun := (hbatch.live a ha hda).running
      exact absurd ⟨hs.standing, hid, hopen, hrun, hd⟩ (hr.prompt hp r v st)

theorem holds_retry (hc : Calm k w) (hr : Resumable k w id) :
    Holds (k.contract.within anywhere) (retry id) (fun _ s => Calm k s) w := by
  refine holds_readThen (c := .loadTask id) rfl (fun row _ => ?_) fun _ _ => hc
  refine Holds.checkThen (fun _ => ?_) fun _ => hc
  refine (holds_note.bounded.wider fun _ _ _ => trivial).bind (fun _ s _ hs => ?_)
    fun _ _ _ hs => hc.fresher hs.2.eases.fresher
  have hc := hc.fresher hs.2.eases.fresher
  have hr := hr.tidies hs.2
  refine holds_load.bind (fun l s' _ hx => ?_) fun _ s _ hs => hs.1 ▸ hc
  obtain ⟨rfl, -, r, v, hl⟩ := hx
  have hrow : r.id = id := World.id_of_row hl.row
  have hid : l.task.id = id := by rw [← hl.task]; exact hrow
  have hclosed : l.task.status.isClosed = true → ClosedAt s' id := by
    intro hcl r' hr'
    obtain rfl := Option.some.inj (hl.row.symm.trans hr')
    rw [TaskRow.isOpen, hl.task, hcl]
    rfl
  refine ((holds_cleanupTerminal _ hid hclosed).bounded.wider fun _ _ _ => trivial).bind
    (fun _ s _ hs => ?_) fun _ _ _ hs => hc.fresher hs.2.eases.fresher
  have hc := hc.fresher hs.2.eases.fresher
  have hr := hr.tidies hs.2
  -- The cleanup may have freed the holder, so the loaded task is older than the row.
  obtain ⟨r', hserves, -⟩ := (hl.standing.serves hl.task).tidies hs.2
  exact (holds_outstanding hc hr hserves hid).wider fun _ _ _ => trivial

/-! Blocking. -/

theorem holds_block {caller : String} {reason : Option String} (hc : Calm k w)
    (hb : k.steady → reason = none → ¬ Behind w id) :
    Holds (k.contract.within anywhere) (block caller id reason) (fun _ s => Calm k s) w := by
  refine holds_knownInstance.bind (fun _ s _ hs => ?_) fun _ _ _ hs => hs ▸ hc
  obtain rfl : s = w := hs
  refine holds_owned.bind (fun l s' _ hx => ?_) fun _ _ _ hs => hs ▸ hc
  obtain ⟨rfl, r, v, hl⟩ := hx
  refine Holds.checkThen (fun _ => ?_) fun _ => hc
  refine Holds.checkThen (fun _ => ?_) fun _ => hc
  refine Holds.doneThen (fun task htask => ?_) fun _ _ => hc
  have happly : l.task.apply (if reason.isSome then .block else .unblock) = .ok task := by
    cases hx : l.task.apply (if reason.isSome then .block else .unblock) with
    | ok x =>
      rw [hx] at htask
      exact congrArg Except.ok (Except.ok.inj (show (.ok x : Except Refusal Task) = .ok task from htask))
    | error =>
      rw [hx] at htask
      cases htask
  have hop : (if reason.isSome then TaskOperation.block else .unblock) = .block ∨
      (if reason.isSome then TaskOperation.block else .unblock) = .unblock := by
    split_ifs
    · exact Or.inl rfl
    · exact Or.inr rfl
  obtain ⟨hopen, status, hstatus, htask'⟩ := Task.open_of_apply hop happly
  refine holds_readThen (c := .newId) rfl (fun event _ => ?_) fun _ _ => hc
  have hid : r.task.id = id := World.id_of_row hl.row
  have htid : task.id = id := by rw [htask', ← hl.task]; exact hid
  set data : TaskProgress := { l.progress.data with blockReason := reason } with hdata
  have hpipe : ∀ progress : Progress, progress.data = data →
      TaskRow.pipeline ⟨task, r.version + 1, some progress⟩ = r.pipeline := by
    intro progress hd
    change progress.data.pipeline = r.pipeline
    rw [hd, TaskRow.pipeline, hl.progress]
    rfl
  have hre : ∀ progress : Progress, progress.data = data →
      Rewrite s' r ⟨task, r.version + 1, some progress⟩ := fun progress hd =>
    .blocked (by rw [TaskRow.isOpen, hl.task, hopen]; rfl) hstatus (by rw [hl.task]; exact htask')
      (hpipe progress hd)
  have hrow : s'.row task.id = some r := htid ▸ hl.row
  have hadv := holds_advanceTask (k := k) (R := anywhere) event hrow hre
    fun _ _ => trivial
  change Holds _ (Store.advanceTask task l.version data event >>= _) _ _
  rw [← hl.version]
  refine hadv.bind (fun written s _ hx => ?_) fun _ _ _ hs => hs.1 ▸ hc
  obtain ⟨rfl, progress, hd, rfl⟩ := hx
  refine Holds.checkThen (fun _ => ?_) fun h => (by cases h)
  have hmoves : Moves (· = id) False (fun r r' => Ages r r' ∧ r'.pipeline = r.pipeline)
      (Dropped (· = id)) s' (s'.putRow ⟨task, r.version + 1, some progress⟩) :=
    moves_putRow hl.row (hre progress hd).ages.id ⟨(hre progress hd).ages, hpipe progress hd⟩
  have hc' := hc.fresher (fresher_of_moves hmoves fun _ _ he => he)
  split
  · exact Holds.pure hc'
  · rename_i hsome
    have hnone : reason = none := by simpa using hsome
    have hnew : (s'.putRow ⟨task, r.version + 1, some progress⟩).row r.id =
        some ⟨task, r.version + 1, some progress⟩ := by
      rw [World.row_putRow, if_pos (by rw [TaskRow.id, TaskRow.id, htid, hid])]
    have hst := hl.standing.later (Change.wrote (hl.standing.row) (hre progress hd)).grown hnew
      (hpipe progress hd)
    have hresume : Resumable k (s'.putRow ⟨task, r.version + 1, some progress⟩) id := by
      have closed : ∀ {review r1 v1 st1}, ¬ Stranded (s'.putRow ⟨task, r.version + 1,
          some progress⟩) id review r1 v1 st1 := by
        intro review r1 v1 st1 hstr
        have hrow1 := hstr.standing.row
        rw [hstr.id, ← hid] at hrow1
        obtain rfl := Option.some.inj (hnew.symm.trans hrow1)
        have hcl := hstr.closed
        rw [TaskRow.isOpen, htask', hstatus] at hcl
        cases hcl
      refine ⟨fun hsteady => ⟨fun hbe => hb hsteady hnone ?_, fun r1 v1 st1 hstr => ?_⟩,
        fun _ r1 v1 st1 => closed⟩
      · exact hbe.back hmoves (fun _ _ _ he => he) fun _ hf => hf
      · exact absurd hstr closed
    exact (holds_outstanding hc' hresume (hst.serves rfl) htid).wider fun _ _ _ => trivial

/-! Rows of their own. -/

theorem fresher_of_rows (hr : ∀ t, w'.row t = w.row t) (hw : w'.workflows = w.workflows)
    (hb : w'.bindings = w.bindings) : Fresher w w' := by
  rintro t ⟨r, v, st, i, b, hs, hid, ho, hget, ht, hobs⟩
  exact ⟨r, v, st, i, b, ⟨hr r.id ▸ hs.row, hw ▸ hs.workflow, hs.stored, hs.invariant⟩, hid, ho,
    hb ▸ hget, ht, hobs⟩

/-- A write that may be refused, as one change that leaves nothing behind. -/
theorem holds_writes {c : Call} {result : Except Refusal World} (hcl : ∀ m, c ≠ .claimMessage m)
    (hp : ∀ a, (w.perform a c).2 = (w.write result).2) (hc : Calm k w)
    (h : ∀ w', result = .ok w' → Orderly w → Change w w' ∧ Fresher w w') :
    Holds (k.contract.within anywhere) (call c) (fun _ s => Calm k s) w := by
  refine holds_write hcl (fun ho a => ?_) fun _ _ => hc
  rw [hp a]
  cases hres : result with
  | error => exact ⟨.same, trivial, hc⟩
  | ok w' =>
    obtain ⟨h1, h2⟩ := h w' hres ho
    exact ⟨h1, trivial, hc.fresher h2⟩

theorem holds_latestWorkflow {β : Type} {f : Option Workflow → Routine β}
    {Q : Except Refusal β → World → Prop}
    (ok : Holds (k.contract.within R) (f (w.latestWorkflow id)) Q w) (fail : ∀ e, Q (.error e) w) :
    Holds (k.contract.within R) (Store.latestWorkflow id >>= f) Q w := by
  refine holds_readThen (c := .latestWorkflow id) rfl (fun x hx => ?_) fun e _ => fail e
  obtain rfl := replies_latestWorkflow.mp hx
  exact ok

theorem latestWorkflow_get {wf : Workflow} (h : w.latestWorkflow id = some wf) :
    w.workflows.get (workflowKey wf) = some wf := by
  have hmem : ∀ (l : List Workflow) (best : Option Workflow), (∀ x ∈ l, x ∈ w.workflows.rows) →
      (∀ x, best = some x → x ∈ w.workflows.rows) →
      ∀ x, l.foldl (fun best next => if best.any (next.version ≤ ·.version) then best
        else some next) best = some x → x ∈ w.workflows.rows := by
    intro l
    induction l with
    | nil => exact fun best _ hb x hx => hb x hx
    | cons y rest ih =>
      intro best hl hb x hx
      refine ih _ (fun z hz => hl z (List.mem_cons_of_mem _ hz)) (fun z hz => ?_) x hx
      beta_reduce at hz
      split_ifs at hz
      · exact hb z hz
      · obtain rfl := Option.some.inj hz
        exact hl _ List.mem_cons_self
  have hrow := hmem _ none (fun x hx => (List.mem_filter.mp hx).1) (by simp) wf h
  exact Table.get_of_mem hrow

theorem plain_taskId {n : Nat} : Plain ("t-" ++ toString n) := by
  intro h
  rw [String.toList_append, List.mem_append] at h
  rcases h with h | h
  · simp at h
  · exact plain_toString n h

theorem holds_createTask {title role teamId : String} {workflowId : Option String}
    (hc : Calm k w) : Holds (k.contract.within anywhere) (createTask title role teamId workflowId)
      (fun _ s => Calm k s) w := by
  refine Holds.checkThen (fun _ => ?_) fun _ => hc
  refine holds_team.bind (fun x s _ hx => ?_) fun _ _ _ hs => hs ▸ hc
  obtain ⟨rfl, -⟩ := hx
  refine holds_latestWorkflow ?_ fun _ => hc
  refine Holds.orRaiseThen (fun (workflow : Workflow) hwf => ?_) fun _ => hc
  refine Holds.orRaiseThen (fun first _ => ?_) fun _ => hc
  refine Holds.checkThen (fun _ => ?_) fun _ => hc
  refine Holds.checkThen (fun _ => ?_) fun _ => hc
  have rest : Holds (k.contract.within anywhere) (do
      let tasks ← Store.tasks
      let v ← (done (validate workflow) : Routine ValidatedWorkflow)
      Store.createPipelineTask { Task.new ("t-" ++ toString (tasks.length + 1)) title teamId
          workflow.id workflow.version with requiresRepo := workflow.requiresRepo }
        (PipelineState.new ("t-" ++ toString (tasks.length + 1)) v).snapshot
      event ("t-" ++ toString (tasks.length + 1)) .start) (fun _ s => Calm k s) s := by
    refine holds_readThen (c := .tasks) rfl (fun (tasks : List Task) _ => ?_) fun _ _ => hc
    refine Holds.doneThen (fun (v : ValidatedWorkflow) hv => ?_) fun _ _ => hc
    set task : Task := { Task.new ("t-" ++ toString (tasks.length + 1)) title teamId
        workflow.id workflow.version with
      requiresRepo := workflow.requiresRepo } with htask
    have hcreate := holds_writes (k := k)
      (c := .createPipelineTask task
        (PipelineState.new ("t-" ++ toString (tasks.length + 1)) v).snapshot)
      (by simp) (fun _ => rfl) hc fun w' hw' ho => ?_
    · exact hcreate.bind (fun _ s' _ hc => (holds_event hc).wider fun _ _ h => h.anywhere)
        fun _ _ _ hs => hs
    · unfold World.createPipelineTask at hw'
      split_ifs at hw' with hsome
      obtain rfl := Except.ok.inj hw'
      have hnone : s.row task.id = none := by simpa using hsome
      set row : TaskRow := ⟨task, 1, some ⟨⟨some
        (PipelineState.new ("t-" ++ toString (tasks.length + 1)) v).snapshot, none⟩, none,
        false⟩⟩ with hrow
      refine ⟨.created row hnone plain_taskId rfl ?_ rfl, ?_⟩
      · rw [validate_eq_ok hv]
        exact latestWorkflow_get hwf
      · rintro t ⟨r, v', st, i, b, hs, hid, hopen, hget, hbt, hobs⟩
        have hget' : s.bindings.get i = some b := hget
        have hne : t ≠ row.id := by
          rintro rfl
          have hsome := ho.booked.task i b hget'
          rw [hbt] at hsome
          have hnone' : s.row row.id = none := hnone
          rw [hnone'] at hsome
          cases hsome
        have hr := hs.row
        rw [hid, World.row_putRow_of_ne hne] at hr
        exact ⟨r, v', st, i, b, ⟨by rw [hid]; exact hr, hs.workflow, hs.stored, hs.invariant⟩, hid,
          hopen, hget', hbt, hobs⟩
  split
  · refine holds_readThen (c := .settings) rfl (fun (me : Settings) _ => ?_) fun _ _ => hc
    refine Holds.checkThen (fun _ => ?_) fun _ => hc
    exact holds_readThen (c := .revParse _ _) rfl (fun _ _ => rest) fun _ _ => hc
  · exact rest

theorem holds_addTeam {teamId : String} {repo workflowId : Option String} (hc : Calm k w) :
    Holds (k.contract.within anywhere) (addTeam teamId repo workflowId)
      (fun _ s => Calm k s) w := by
  refine Holds.checkThen (fun _ => ?_) fun _ => hc
  refine holds_latestWorkflow ?_ fun _ => hc
  refine Holds.checkThen (fun _ => ?_) fun _ => hc
  have rest : ∀ team : Team, Holds (k.contract.within anywhere) (Store.addTeam team)
      (fun _ s => Calm k s) w := by
    intro team
    refine holds_writes (c := .addTeam team) (by simp) (fun _ => rfl) hc fun w' hw' _ => ?_
    unfold World.addTeam at hw'
    split_ifs at hw' with hsome
    obtain rfl := Except.ok.inj hw'
    exact ⟨.founded team (by simpa using hsome), fresher_of_rows (fun _ => rfl) rfl rfl⟩
  cases repo with
  | some repo =>
    refine holds_readThen (c := .settings) rfl (fun (me : Settings) _ => ?_) fun _ _ => hc
    refine Holds.checkThen (fun _ => ?_) fun _ => hc
    exact holds_readThen (c := .revParse _ _) rfl (fun _ _ => rest _) fun _ _ => hc
  | none => exact rest _

theorem free_of_busy {i : String} (h : w.busy i = false) : Free w i := by
  unfold World.busy at h
  simp only [Bool.or_eq_false_iff, List.any_eq_false, Bool.and_eq_true, decide_eq_true_eq,
    not_and] at h
  obtain ⟨htask, hbind⟩ := h
  refine ⟨fun t r hr ho ha => htask r (Table.get_eq_some.mp hr).1 ho ha, ?_⟩
  cases hb : w.bindings.get i with
  | none => rfl
  | some b =>
    obtain ⟨hmem, hid⟩ := Table.get_eq_some.mp hb
    exact absurd hid (hbind b hmem)

theorem holds_joinTeam {teamId instanceId role : String} (hc : Calm k w) :
    Holds (k.contract.within anywhere) (joinTeam teamId instanceId role)
      (fun _ s => Calm k s) w := by
  refine holds_team.bind (fun x s _ hx => ?_) fun _ _ _ hs => hs ▸ hc
  obtain ⟨rfl, -⟩ := hx
  refine Holds.checkThen (fun _ => ?_) fun _ => hc
  refine holds_writes (c := .joinTeam teamId instanceId role) (by simp) (fun _ => rfl) hc
    fun w' hw' _ => ?_
  unfold World.joinTeam at hw'
  split_ifs at hw' with hbusy
  split at hw'
  · rename_i agent hget
    obtain rfl := Except.ok.inj hw'
    have hid : agent.id = instanceId := (Table.get_eq_some.mp hget).2
    subst hid
    exact ⟨.joined _ hget (free_of_busy (by simpa using hbusy)),
      fresher_of_rows (fun _ => rfl) rfl rfl⟩
  · cases hw'

theorem holds_setTeamWorkflow {teamId workflowId : String} (hc : Calm k w) :
    Holds (k.contract.within anywhere) (setTeamWorkflow teamId workflowId)
      (fun _ s => Calm k s) w := by
  refine holds_team.bind (fun x s _ hx => ?_) fun _ _ _ hs => hs ▸ hc
  obtain ⟨rfl, -⟩ := hx
  refine holds_latestWorkflow ?_ fun _ => hc
  refine Holds.orRaiseThen (fun workflow _ => ?_) fun _ => hc
  refine Holds.doneThen (fun _ _ => ?_) fun _ _ => hc
  refine holds_writes (c := .setTeamWorkflow teamId workflowId) (by simp) (fun _ => rfl) hc
    fun w' hw' _ => ?_
  unfold World.setTeamWorkflow at hw'
  split at hw'
  · rename_i team hget
    obtain rfl := Except.ok.inj hw'
    have hid : team.id = teamId := (Table.get_eq_some.mp hget).2
    subst hid
    exact ⟨.steered _ hget rfl, fresher_of_rows (fun _ => rfl) rfl rfl⟩
  · cases hw'

/-- A workflow under a new key pins no task. -/
theorem standing_of_saved {workflow : Workflow} (ho : Orderly w)
    (hn : w.workflows.get (workflowKey workflow) = none)
    (hs : Standing { w with workflows := w.workflows.put workflow } r v st) : Standing w r v st := by
  refine ⟨hs.row, ?_, hs.stored, hs.invariant⟩
  obtain ⟨v0, st0, hs0⟩ := ho.standing r.id r hs.row
  have hwf := hs.workflow
  rw [Table.get_put] at hwf
  split_ifs at hwf with hkey
  · rw [← hkey, hs0.workflow] at hn
    cases hn
  · exact hwf

theorem holds_saveWorkflow {workflow : Workflow} (hc : Calm k w) :
    Holds (k.contract.within anywhere) (Store.saveWorkflow workflow) (fun _ s => Calm k s) w := by
  refine holds_writes (c := .saveWorkflow workflow) (by simp) (fun _ => rfl) hc fun w' hw' ho => ?_
  unfold World.saveWorkflow at hw'
  split_ifs at hw' with hsome
  obtain rfl := Except.ok.inj hw'
  have hnone : w.workflows.get (workflowKey workflow) = none := by simpa using hsome
  refine ⟨.saved workflow hnone, ?_⟩
  rintro t ⟨r, v, st, i, b, hs, hid, hopen, hget, hbt, hobs⟩
  exact ⟨r, v, st, i, b, standing_of_saved ho hnone hs, hid, hopen, hget, hbt, hobs⟩

theorem holds_applyWorkflow {workflow : Workflow} (hc : Calm k w) :
    Holds (k.contract.within anywhere) (applyWorkflow workflow) (fun _ s => Calm k s) w := by
  refine Holds.checkThen (fun _ => ?_) fun _ => hc
  refine Holds.checkThen (fun _ => ?_) fun _ => hc
  refine holds_latestWorkflow ?_ fun _ => hc
  exact Holds.doneThen (fun _ _ => holds_saveWorkflow hc) fun _ _ => hc

theorem holds_addInstance {agent : Agent} (hc : Calm k w) :
    Holds (k.contract.within anywhere) (Store.addInstance agent) (fun _ s => Calm k s) w := by
  refine holds_writes (c := .addInstance agent) (by simp) (fun _ => rfl) hc fun w' hw' _ => ?_
  unfold World.addInstance at hw'
  split_ifs at hw' with hvalid hsome
  obtain rfl := Except.ok.inj hw'
  exact ⟨.hired agent (by simpa using hsome) (plain_of_validateId (by simpa using hvalid)),
    fresher_of_rows (fun _ => rfl) rfl rfl⟩

end Agend.Engine
