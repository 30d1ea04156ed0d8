import Agend.Engine.Cleanup

/-! Who is chosen for a dispatch, and what binding and telling them moves. -/
namespace Agend.Engine

open Agend.Library Agend.Pipeline Agend.Runtime Program

variable {k : Terms} {w w' : World} {r : TaskRow} {v : ValidatedWorkflow} {st : PipelineState}
  {task : Task} {role i : String} {review : Bool} {b : BindingRow}

/-- The engine's copy of a task and of its state describes the row. -/
structure Serves (w : World) (task : Task) (st : PipelineState) (r : TaskRow)
    (v : ValidatedWorkflow) : Prop where
  standing : Standing w r v st
  id : r.task.id = task.id
  title : r.task.title = task.title
  team : r.task.teamId = task.teamId
  holder : r.isOpen = true → r.task.assignee = task.assignee
  assignee : r.task.assignee = task.assignee ∨ r.task.assignee = none
  closed : task.status.isClosed = true → r.isOpen = false

theorem Standing.serves (hs : Standing w r v st) (ht : r.task = task) : Serves w task st r v := by
  refine ⟨hs, by rw [ht], by rw [ht], by rw [ht], fun _ => by rw [ht], Or.inl (by rw [ht]),
    fun hc => ?_⟩
  rw [TaskRow.isOpen, ht, hc]
  rfl

theorem Serves.tidies (hs : Serves w task st r v) {t : String} (h : Tidies t w w') :
    ∃ r', Serves w' task st r' v ∧ r'.isOpen = r.isOpen := by
  obtain ⟨r', hs', -, rfl | he⟩ := hs.standing.forth h fun _ _ he => ⟨he.ages, he.pipeline⟩
  · exact ⟨r', ⟨hs', hs.id, hs.title, hs.team, hs.holder, hs.assignee, hs.closed⟩, rfl⟩
  · refine ⟨r', ⟨hs', he.ages.id.trans hs.id, he.ages.title.trans hs.title,
      he.ages.team.trans hs.team, fun ho => ?_, ?_, fun hc => he.ages.closed (hs.closed hc)⟩,
      isOpen_eq he.status⟩
    · rw [he.task ho]
      exact hs.holder (open_of_ages he.ages ho)
    · rcases he.assignee with ha | ha
      · rw [ha]
        exact hs.assignee
      · exact Or.inr ha

/-! The choice. -/

/-- Whom a decision names. -/
inductive Picked (w : World) (task : Task) (st : PipelineState) (role i : String) : Bool → Prop
  | fresh {agent : Agent} (hn : task.assignee = none) (hf : Free w i)
      (ha : w.agents.get i = some agent) (hr : agent.role = role)
      (ht : agent.team = task.teamId) : Picked w task st role i false
  | held (ha : task.assignee = some i)
      (hh : (∃ r, w.row task.id = some r ∧ r.isOpen = true ∧ r.task.assignee = some i) ∨
        (∀ t r, w.row t = some r → r.isOpen = true → r.task.assignee ≠ some i) ∧
          ∃ b, w.bindings.get i = some b ∧ b.task = task.id) : Picked w task st role i false
  | asked {b : BindingRow} (hb : w.bindings.get i = some b) (ht : b.task = task.id)
      (hk : b.kind = .review) (hc : b.ticket = ticket st) : Picked w task st role i true
  | reviewer {agent : Agent} (hf : Free w i) (ha : w.agents.get i = some agent)
      (hr : agent.role = role) (ht : agent.team = task.teamId) (hn : task.assignee ≠ some i)
      (hc : i ∉ st.approvalReviewers) : Picked w task st role i true

theorem mem_tasks {x : Task} : x ∈ w.tasks.values.map (·.task) ↔
    ∃ r, w.row x.id = some r ∧ r.task = x := by
  rw [List.mem_map]
  constructor
  · rintro ⟨r, hr, rfl⟩
    exact ⟨r, Table.get_of_mem (Table.mem_values.mp hr), rfl⟩
  · rintro ⟨r, hr, rfl⟩
    exact ⟨r, Table.mem_values.mpr (Table.get_eq_some.mp hr).1, rfl⟩

/-- An instance that holds nothing is free. -/
theorem free_of_heldTask
    (h : heldTask (w.tasks.values.map (·.task)) w.bindings.values i = none) : Free w i := by
  unfold heldTask at h
  rw [Option.or_eq_none_iff, Option.map_eq_none_iff, Option.map_eq_none_iff] at h
  obtain ⟨htask, hbind⟩ := h
  constructor
  · intro t r hr ho ha
    have hid : r.task.id = t := World.id_of_row hr
    refine List.find?_eq_none.mp htask r.task (mem_tasks.mpr ⟨r, by rw [hid]; exact hr, rfl⟩) ?_
    simpa [ha, TaskRow.isOpen] using ho
  · cases hb : w.bindings.get i with
    | none => rfl
    | some b =>
      obtain ⟨hmem, hi⟩ := Table.get_eq_some.mp hb
      refine absurd ?_ (List.find?_eq_none.mp hbind b (Table.mem_values.mpr hmem))
      simpa using hi

/-- An instance holds the open task it is assigned to, or else the one it is bound to. -/
theorem held_of_heldTask {t : String}
    (h : heldTask (w.tasks.values.map (·.task)) w.bindings.values i = some t) :
    (∃ r, w.row t = some r ∧ r.isOpen = true ∧ r.task.assignee = some i) ∨
      (∀ t r, w.row t = some r → r.isOpen = true → r.task.assignee ≠ some i) ∧
        ∃ b, w.bindings.get i = some b ∧ b.task = t := by
  unfold heldTask at h
  rcases Option.or_eq_some_iff.mp h with hf | ⟨hn, hb⟩
  · left
    obtain ⟨x, hx, rfl⟩ := Option.map_eq_some_iff.mp hf
    have hp := List.find?_some hx
    obtain ⟨r, hr, rfl⟩ := mem_tasks.mp (List.mem_of_find?_eq_some hx)
    simp only [Bool.and_eq_true, decide_eq_true_eq] at hp
    exact ⟨r, hr, hp.2, hp.1⟩
  · right
    obtain ⟨b, hfind, rfl⟩ := Option.map_eq_some_iff.mp hb
    have hi := List.find?_some hfind
    refine ⟨fun t r hr ho ha => ?_, b, Table.get_eq_some.mpr
      ⟨Table.mem_values.mp (List.mem_of_find?_eq_some hfind), of_decide_eq_true hi⟩, rfl⟩
    have hid : r.task.id = t := World.id_of_row hr
    refine List.find?_eq_none.mp (Option.map_eq_none_iff.mp hn) r.task
      (mem_tasks.mpr ⟨r, by rw [hid]; exact hr, rfl⟩) ?_
    simpa [ha, TaskRow.isOpen] using ho

/-- A candidate is a member of the team, with its role, as an agent. -/
theorem of_mem_candidatesOf {members : List Agent} {instances : List (Agent × InstanceStatus)}
    {bindings : List BindingRow} {tasks : List Task} {c : Candidate}
    (hm : members = w.agents.values)
    (hc : c ∈ candidatesOf task st members bindings tasks instances) :
    (∃ agent, w.agents.get c.instanceId = some agent ∧ agent.role = c.role ∧
      agent.team = c.teamId ∧ agent.team = task.teamId) ∧
      c.heldTask = heldTask tasks bindings c.instanceId ∧
      c.usageAvailable = !st.approvalReviewers.contains c.instanceId := by
  obtain ⟨p, -, hp⟩ := List.mem_filterMap.mp hc
  obtain ⟨m, hfind, rfl⟩ := Option.map_eq_some_iff.mp hp
  have hcond := List.find?_some hfind
  simp only [Bool.and_eq_true, decide_eq_true_eq] at hcond
  have hmem := List.mem_of_find?_eq_some hfind
  rw [hm] at hmem
  exact ⟨⟨m, Table.get_eq_some.mpr ⟨Table.mem_values.mp hmem, hcond.1⟩, rfl, rfl, hcond.2⟩, rfl, rfl⟩

theorem holds_decideInstance {R : World → World → Prop} [IsPreorder World R] :
    Holds (k.contract.within R)
      (decideInstance task st role review w.agents.values w.bindings.values)
      (After (fun d s => s = w ∧ ∀ i, d = .assigned i → Picked w task st role i review)
        fun _ _ => True) w := by
  refine holds_readThen (c := .tasks) rfl (fun tasks ht => ?_) fun _ _ => trivial
  obtain rfl := replies_tasks.mp ht
  refine holds_readThen (c := .instances) rfl (fun instances _ => ?_) fun _ _ => trivial
  refine Holds.pure ⟨rfl, fun i hi => ?_⟩
  split at hi
  · rename_i j hj
    obtain rfl := AssignmentDecision.assigned.inj hi
    obtain ⟨b, hfind, rfl⟩ := Option.map_eq_some_iff.mp hj
    have hcond := List.find?_some hfind
    simp only [Bool.and_eq_true, decide_eq_true_eq] at hcond
    obtain ⟨⟨⟨rfl, ht⟩, hk⟩, hc⟩ := hcond
    exact .asked (Table.get_of_mem (Table.mem_values.mp (List.mem_of_find?_eq_some hfind))) ht hk hc
  · cases review with
    | true =>
      have hp : ∀ t h b c, (requestFor task st role true w.agents.values instances).purpose ≠
          .rework t h b c := by
        intro t h b c
        simp [requestFor]
      obtain ⟨c, hc, rfl, hteam, hrole, hus, hheld, hne⟩ := choose_free hp hi
      obtain ⟨⟨agent, ha, hr, ht, htask⟩, hh, hu⟩ := of_mem_candidatesOf rfl hc
      refine .reviewer (free_of_heldTask (hh ▸ hheld)) ha (hr.trans hrole) htask (fun hcon => ?_) ?_
      · refine hne (task.assignee.getD "") _ rfl ?_
        rw [hcon]
        rfl
      · rw [hu] at hus
        simpa using hus
    | false =>
      cases hassign : task.assignee with
      | none =>
        have hp : ∀ t h b c, (requestFor task st role false w.agents.values instances).purpose ≠
            .rework t h b c := by
          intro t h b c
          simp [requestFor, hassign]
        obtain ⟨c, hc, rfl, hteam, hrole, -, hheld, -⟩ := choose_free hp hi
        obtain ⟨⟨agent, ha, hr, ht, htask⟩, hh, -⟩ := of_mem_candidatesOf rfl hc
        exact .fresh hassign (free_of_heldTask (hh ▸ hheld)) ha (hr.trans hrole) htask
      | some holder =>
        have hp : (requestFor task st role false w.agents.values instances).purpose =
            .rework task.id holder st.branch [] := by
          simp [requestFor, hassign]
        obtain ⟨rfl, c, hc, hid, hheld⟩ := choose_rework hp hi
        obtain ⟨-, hh, -⟩ := of_mem_candidatesOf rfl hc
        rw [hh, hid] at hheld
        exact .held hassign (held_of_heldTask hheld)

/-! The dispatch. -/

/-- Binding and telling `i` agrees with who holds what. -/
structure Bindable (w : World) (task : Task) (st : PipelineState) (role i : String)
    (review : Bool) (r : TaskRow) (v : ValidatedWorkflow) : Prop where
  standing : Standing w r v st
  id : r.task.id = task.id
  title : r.task.title = task.title
  team : r.task.teamId = task.teamId
  holders : ∀ t r, w.row t = some r → r.isOpen = true → r.task.assignee = some i → t = task.id
  holder : review = false → r.isOpen = true → r.task.assignee = some i
  other : review = true → r.task.assignee ≠ some i
  stage : if review then ∃ count bound, AtStage st (.approval (.role role) count bound)
    else ∃ text output, AtStage st (.work role text output)
  worker : review = false → r.isOpen = true → st.pendingWorkReason = none →
    ∀ agent, w.agents.get i = some agent → agent.role = role
  reviewer : review = true → ∃ agent, w.agents.get i = some agent ∧ agent.role = role ∧
    agent.team = r.task.teamId
  counted : review = true → i ∈ st.approvalReviewers → ∃ b, w.bindings.get i = some b ∧
    b.task = task.id ∧ b.kind = .review

/-- Another binding of the same reviewer changes none of it. -/
theorem Bindable.put (h : Bindable w task st role i review r v) (hi : b.instanceId = i)
    (ht : b.task = task.id) (hk : review = true → b.kind = .review) :
    Bindable { w with bindings := w.bindings.put b } task st role i review r v := by
  refine ⟨⟨h.standing.row, h.standing.workflow, h.standing.stored, h.standing.invariant⟩, h.id,
    h.title, h.team, h.holders, h.holder, h.other, h.stage, h.worker, h.reviewer,
    fun hr _ => ⟨b, ?_, ht, hk hr⟩⟩
  rw [← hi]
  exact Table.get_put_self

/-- A binding for the dispatch. -/
structure Binds (b : BindingRow) (task : Task) (st : PipelineState) (i : String) (review : Bool) :
    Prop where
  instanceId : b.instanceId = i
  task : b.task = task.id
  kind : b.kind = if review then .review else .work
  ticket : b.ticket = ticket st

theorem Bindable.fits (h : Bindable w task st role i review r v)
    (hb : Binds b task st i review) : Fits w b := by
  have hrow : ∀ r', w.row b.task = some r' → r' = r := by
    intro r' hr'
    rw [hb.task, ← h.id] at hr'
    exact Option.some.inj (hr'.symm.trans h.standing.row)
  refine ⟨fun t r' hr' ho ha => ?_, fun hk r' hr' ho => ?_, fun hk r' hr' => ?_⟩
  · rw [hb.task]
    rw [hb.instanceId] at ha
    exact h.holders t r' hr' ho ha
  · obtain rfl := hrow r' hr'
    rw [hb.kind] at hk
    cases review with
    | true => cases hk
    | false =>
      rw [hb.instanceId]
      exact h.holder rfl ho
  · obtain rfl := hrow r' hr'
    rw [hb.kind] at hk
    cases review with
    | true =>
      rw [hb.instanceId]
      exact h.other rfl
    | false => cases hk

theorem Bindable.suited (h : Bindable w task st role i review r v)
    (hb : Binds b task st i review) (hk : b.kind = .review) : Suited w b := by
  have hrev : review = true := by
    cases review with
    | true => rfl
    | false =>
      rw [hb.kind] at hk
      cases hk
  subst hrev
  obtain ⟨count, bound, hst⟩ : ∃ count bound, AtStage st (.approval (.role role) count bound) :=
    h.stage
  obtain ⟨s, hs, hkind⟩ := stage_of_atStage hst
  obtain ⟨agent, ha, hr, ht⟩ := h.reviewer rfl
  refine ⟨r, v.workflow, s, role, count, bound, agent, st.attempt, ?_, h.standing.workflow, ?_,
    hkind, ?_, by rw [hb.instanceId]; exact ha, hr, ht⟩
  · rw [hb.task, ← h.id]
    exact h.standing.row
  · rw [← h.standing.invariant.workflow]
    exact List.mem_of_getElem? hs
  · have htask : st.taskId = task.id := h.standing.invariant.task.trans h.id
    have hcur : st.currentStage = some s := hs
    rw [hb.ticket, hb.task, ticket, htask, hcur]
    rfl

/-- What a bound instance may get: nothing obsolete that was not there before. -/
theorem Bindable.assigns (h : Bindable w task st role i review r v)
    (hb : Binds b task st i review)
    (hold : ∀ old, w.bindings.get i = some old → old.task = task.id) :
    Assigns task.id w { w with bindings := w.bindings.put b } := by
  have hget : ∀ j, (w.bindings.put b).get j = if j = i then some b else w.bindings.get j := by
    intro j
    rw [Table.get_put, hb.instanceId]
  refine ⟨⟨rfl, rfl, rfl, rfl, rfl, fun _ => Or.inl rfl, fun _ => Or.inl rfl, fun j => ?_⟩, ?_⟩
  · change (w.bindings.put b).get j = _ ∨ Touched _ _ ((w.bindings.put b).get j)
    rw [hget]
    split_ifs with hj
    · refine Or.inr ⟨fun c hc => hold c (hj ▸ hc), fun c hc => ?_⟩
      obtain rfl := Option.some.inj hc
      exact hb.task
    · exact Or.inl rfl
  · rintro t ⟨r', v', st', j, c, hs, rfl, ho, hc, hct, hobs⟩
    have hs' : Standing w r' v' st' := ⟨hs.row, hs.workflow, hs.stored, hs.invariant⟩
    change (w.bindings.put b).get j = some c at hc
    rw [hget] at hc
    split_ifs at hc with hj
    · obtain rfl := Option.some.inj hc
      have hid : r'.id = r.id := hct.symm.trans (hb.task.trans h.id.symm)
      have hrow := hs'.row
      rw [hid, h.standing.row] at hrow
      obtain rfl := Option.some.inj hrow
      obtain ⟨-, rfl⟩ := hs'.unique h.standing
      simp only [obsolete, hb.ticket, ne_eq, not_true_eq_false, decide_false, Bool.false_or,
        Bool.and_eq_true, decide_eq_true_eq, List.contains_iff_mem, hb.instanceId] at hobs
      have hrev : review = true := by
        have hk := hb.kind.symm.trans hobs.1
        cases review with
        | true => rfl
        | false => cases hk
      obtain ⟨old, hold', ht, hk⟩ := h.counted hrev hobs.2
      refine ⟨r, v', st', i, old, hs', rfl, ho, hold', by rw [ht, ← hb.task, hct], ?_⟩
      have hoi : old.instanceId = i := (Table.get_eq_some.mp hold').2
      simp [obsolete, hk, hoi, hobs.2]
    · exact ⟨r', v', st', j, c, hs', rfl, ho, hc, hct, hobs⟩

/-- A binding is written for whoever may have it, or refused. -/
theorem holds_putBinding {c : Call} (hc : ∀ m, c ≠ .claimMessage m)
    (hp : ∀ a, (w.perform a c).2 = (w.write (w.putBinding b)).2)
    (h : Bindable w task st role i review r v) (hb : Binds b task st i review) :
    Holds (k.contract.within (Assigns task.id)) (call c)
      (After (fun _ s => Bindable s task st role i review r v ∧ ∃ t, s = { w with bindings := t })
        fun _ _ => True) w := by
  refine holds_write hc (fun ho a => ?_) fun _ _ => trivial
  rw [hp a]
  unfold World.putBinding World.write
  split
  · rename_i w1 hput
    split at hput
    · rename_i old hold
      split_ifs at hput with hsame
      obtain rfl := Except.ok.inj hput
      obtain ⟨ht, hk, hw⟩ := hsame
      have holdid : old.instanceId = b.instanceId := (Table.get_eq_some.mp hold).2
      set b1 : BindingRow := { old with
        ticket := b.ticket
        status := b.status
        head := b.head } with hb1
      have hb' : Binds b1 task st i review :=
        ⟨holdid.trans hb.instanceId, ht.trans hb.task, hk.trans hb.kind, hb.ticket⟩
      have hold' : w.bindings.get b1.instanceId = some old := by
        rw [show b1.instanceId = b.instanceId from holdid]
        exact hold
      have hgood := h.put hb'.instanceId hb'.task fun hr => by rw [hb'.kind, hr]; rfl
      refine ⟨.rebound b1 hold' rfl rfl rfl (h.suited hb'), h.assigns hb' fun c hc => ?_, ?_⟩
      · rw [← hb.instanceId, hold] at hc
        obtain rfl := Option.some.inj hc
        exact ht.trans hb.task
      · cases (w.perform a c).1 with
        | ok => exact ⟨hgood, _, rfl⟩
        | error => trivial
    · rename_i hnone
      split_ifs at hput with h1 h2
      obtain rfl := Except.ok.inj hput
      have hgood := h.put hb.instanceId hb.task fun hr => by rw [hb.kind, hr]; rfl
      refine ⟨.bound b hnone ?_ ?_ (h.fits hb) (h.suited hb), h.assigns hb fun c hc => ?_, ?_⟩
      · simp only [Bool.or_eq_true, not_or, Option.isNone_iff_eq_none] at h1
        exact Option.isSome_iff_ne_none.mpr h1.2
      · intro j c hc he
        simp only [List.any_eq_true, decide_eq_true_eq, not_exists, not_and] at h2
        exact h2 c (Table.get_eq_some.mp hc).1 he
      · rw [← hb.instanceId, hnone] at hc
        cases hc
      · cases (w.perform a c).1 with
        | ok => exact ⟨hgood, _, rfl⟩
        | error => trivial
  · refine ⟨.same, refl_of (Assigns task.id) w, ?_⟩
    cases (w.perform a c).1 with
    | ok => exact ⟨h, w.bindings, rfl⟩
    | error => trivial

theorem binds_review {home : String} {repo : Option String} :
    Binds (reviewBinding home repo task st i) task st i true :=
  ⟨rfl, rfl, rfl, rfl⟩

theorem binds_work {home : String} : Binds (workBinding home task st i) task st i false :=
  ⟨rfl, rfl, rfl, rfl⟩

/-- Only the bindings have changed, and the dispatch may go on. -/
def BoundSince (w : World) (task : Task) (st : PipelineState) (role i : String) (review : Bool)
    (r : TaskRow) (v : ValidatedWorkflow) (s : World) : Prop :=
  Bindable s task st role i review r v ∧ ∃ t, s = { w with bindings := t }

theorem BoundSince.trans {s s' : World} (h : BoundSince w task st role i review r v s)
    (h' : BoundSince s task st role i review r v s') : BoundSince w task st role i review r v s' := by
  obtain ⟨-, t, rfl⟩ := h
  obtain ⟨hb, t', rfl⟩ := h'
  exact ⟨hb, t', rfl⟩

/-- The last step of `bindWorktree`. -/
theorem holds_ensureWorktree {repo : Option String} {s : World} (me : Settings)
    (hs : BoundSince w task st role i review r v s) :
    Holds (k.contract.within (Assigns task.id)) (match repo.filter fun _ =>
        !review || st.currentHead.isSome with
      | some repo' => do
        check me.git (invalid "real git unavailable")
        Executor.ensure repo' (if review then reviewBinding me.home repo task st i
          else workBinding me.home task st i)
      | none => Pure.pure ())
      (After (fun _ s => BoundSince w task st role i review r v s) fun _ _ => True) s := by
  split
  · refine Holds.checkThen (fun _ => ?_) fun _ => trivial
    have hb : Binds { (if review then reviewBinding me.home repo task st i
        else workBinding me.home task st i) with status := .ready } task st i review := by
      cases review <;> exact ⟨rfl, rfl, rfl, rfl⟩
    refine (holds_putBinding (c := .ensure _ _) (by simp) (fun a => rfl) hs.1 hb).mono
      fun res s' _ hres => ?_
    cases res with
    | ok => exact hs.trans hres
    | error => trivial
  · exact Holds.pure hs

theorem holds_bindWorktree {repo : Option String} (h : Bindable w task st role i review r v) :
    Holds (k.contract.within (Assigns task.id)) (bindWorktree task st repo review i)
      (After (fun _ s => BoundSince w task st role i review r v s) fun _ _ => True) w := by
  refine holds_readThen (c := .settings) rfl (fun (me : Settings) _ => ?_) fun _ _ => trivial
  cases review with
  | true =>
    exact (holds_putBinding (c := .putBinding _) (by simp) (fun a => rfl) h binds_review).bind
      (fun _ s _ hs => holds_ensureWorktree me hs) fun _ _ _ _ => trivial
  | false =>
    by_cases hr : repo.isSome = true
    · simp only [Bool.false_eq_true, if_false, hr, if_true]
      exact (holds_putBinding (c := .putBinding _) (by simp) (fun a => rfl) h binds_work).bind
        (fun _ s _ hs => holds_ensureWorktree me hs) fun _ _ _ _ => trivial
    · simp only [Bool.false_eq_true, if_false, hr]
      exact holds_ensureWorktree me ⟨h, w.bindings, rfl⟩

/-- What is already sent under the id is what would be sent. -/
def Agrees (w : World) (task : Task) (st : PipelineState) (review : Bool) (i : String) : Prop :=
  ∀ old, w.messages.get (dispatchId (ticket st) review i) = some old →
    ∃ team, w.teams.get task.teamId = some team ∧
      old = dispatchOf w.home team.repo task st review i

theorem Bindable.dispatched {t : Team} {agent : Agent}
    (h : Bindable w task st role i review r v) (hl : st.Live)
    (ht : w.teams.get task.teamId = some t) (ha : w.agents.get i = some agent) :
    Dispatched w (dispatchOf w.home t.repo task st review i) r v st review i := by
  refine ⟨h.standing, hl, ⟨t, by rw [h.team]; exact ht,
    dispatchOf_congr h.id.symm h.title.symm _ _ _ _ _⟩, ?_⟩
  cases review with
  | true =>
    obtain ⟨count, bound, hst⟩ : ∃ count bound, AtStage st (.approval (.role role) count bound) :=
      h.stage
    obtain ⟨agent', ha', hr, hteam⟩ := h.reviewer rfl
    exact .review hst ha' hr hteam (h.other rfl)
  | false =>
    obtain ⟨text, output, hst⟩ : ∃ text output, AtStage st (.work role text output) := h.stage
    exact .work hst ha (fun ho hn => h.worker rfl ho hn agent ha) (h.holder rfl)

/-- The message of a dispatch is stored, or found to be there. -/
theorem holds_claim {m : NewMessage} (hd : Dispatched w m r v st review i)
    (ht : m.taskId = some task.id) (hst : k.steady → ∀ old, w.messages.get m.id = some old → old = m)
    (hfr : k.prompt → review = true → i ∉ st.approvalReviewers) :
    Holds (k.contract.within (Assigns task.id)) (Store.claimMessage m) (fun _ _ => True) w := by
  refine Holds.ask fun _ a _ => ?_
  have hdealt : ∀ m', Call.claimMessage m = .claimMessage m' → Dealt k w m' := by
    intro m' hm
    obtain rfl := Call.claimMessage.inj hm
    exact ⟨r, v, st, review, i, hd, hst, hfr⟩
  have hexec : (w.exec (.claimMessage m) a).2 = w ∨ w.messages.get m.id = none ∧
      (w.exec (.claimMessage m) a).2 = { w with messages := w.messages.put m } := by
    rcases fault_or_perform w (.claimMessage m) a with ⟨_, -, he⟩ | ⟨-, he⟩
    · exact Or.inl (by rw [he])
    · rw [he]
      change (w.claim m a.state).2 = w ∨ _ ∧ (w.claim m a.state).2 = _
      unfold World.claim
      cases hm : w.messages.get m.id with
      | some old => exact Or.inl rfl
      | none => exact Or.inr ⟨rfl, rfl⟩
  refine ⟨⟨⟨?_, hdealt⟩, ?_⟩, fun _ => trivial⟩
  · rcases hexec with he | ⟨hn, he⟩
    · rw [he]
      exact .same
    · rw [he]
      exact .claimed m hn hd
  · change Assigns task.id w (w.exec (.claimMessage m) a).2
    rcases hexec with he | ⟨hn, he⟩
    · rw [he]
      exact refl_of (Assigns task.id) w
    · rw [he]
      refine ⟨⟨rfl, rfl, rfl, rfl, rfl, fun id => ?_, fun _ => Or.inl rfl, fun _ => Or.inl rfl⟩, ?_⟩
      · change (w.messages.put m).get id = _ ∨ _ ∧ _ ∧ ∀ m', (w.messages.put m).get id = some m' → _
        rw [Table.get_put]
        split_ifs with hid
        · refine Or.inr ⟨trivial, hid ▸ hn, fun m' hm => ⟨task.id, rfl, ?_⟩⟩
          obtain rfl := Option.some.inj hm
          exact ht
        · exact Or.inl rfl
      · rintro t ⟨r', v', st', j, c, hs, hrest⟩
        exact ⟨r', v', st', j, c, ⟨hs.row, hs.workflow, hs.stored, hs.invariant⟩, hrest⟩

theorem holds_deliver {t : Team} (h : Bindable w task st role i review r v) (hl : st.Live)
    (ht : w.teams.get task.teamId = some t) (hag : k.steady → Agrees w task st review i)
    (hfr : k.prompt → review = true → i ∉ st.approvalReviewers) :
    Holds (k.contract.within (Assigns task.id)) (deliver i (dispatchId (ticket st) review i)
      (some task.id) (dispatchBody (worktreeOf w.home t.repo task st review i) task st review))
      (fun _ _ => True) w := by
  refine holds_readThen (c := .members) rfl (fun members hm => ?_) fun _ _ => trivial
  obtain rfl := replies_members.mp hm
  refine Holds.orRaiseThen (fun (member : Agent) hfind => ?_) fun _ => trivial
  have hid := List.find?_some hfind
  have ha : w.agents.get i = some member := Table.get_eq_some.mpr
    ⟨Table.mem_values.mp (List.mem_of_find?_eq_some hfind), of_decide_eq_true hid⟩
  have hsame : k.steady → ∀ old, w.messages.get
      (dispatchOf w.home t.repo task st review i).id = some old →
      old = dispatchOf w.home t.repo task st review i := by
    intro hst old hold
    obtain ⟨t', ht', rfl⟩ := hag hst old hold
    obtain rfl := Option.some.inj (ht.symm.trans ht')
    rfl
  refine (holds_claim (h.dispatched hl ht ha) rfl hsame hfr).bind (fun claim s _ _ => ?_)
    fun _ _ _ _ => trivial
  have advance : ∀ (state : DeliveryState) (s : World), Holds (k.contract.within (Assigns task.id))
      (Store.advanceMessage (dispatchId (ticket st) review i) state) (fun _ _ => True) s :=
    fun state s => (holds_read (c := .advanceMessage _ _) rfl).mono fun _ _ _ _ => trivial
  split
  · exact Holds.raise trivial
  · split
    · exact Holds.pure trivial
    · split
      · exact advance _ s
      · exact (holds_read (c := .deliver _ _) rfl).bind (fun state s _ _ => advance state s)
          fun _ _ _ _ => trivial

end Agend.Engine
