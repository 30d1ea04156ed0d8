import Agend.Engine.Acting
import Agend.Pipeline.Consumed

/-! A transition: the stored pipeline is loaded, stepped and written, obsolete reviewers are let
go, and the actions follow. -/
namespace Agend.Engine

open Agend.Library Agend.Pipeline Agend.Runtime Program

variable {k : Terms} {R : World → World → Prop} [IsPreorder World R] {w w' : World} {r : TaskRow}
  {v : ValidatedWorkflow} {id t : String} {l : Loaded} {e : PipelineEvent}

/-- What is loaded is what is stored. -/
structure Loads (w : World) (id : String) (l : Loaded) (r : TaskRow) (v : ValidatedWorkflow) :
    Prop where
  row : w.row id = some r
  task : r.task = l.task
  version : r.version = l.version
  progress : r.progress = some l.progress
  standing : Standing w r v l.state

/-- The stored pipeline passes the checks of a restart. -/
def Loadable (w : World) (id : String) : Prop :=
  ∃ r l, w.row id = some r ∧ restored id r (w.workflows.get (pinned r.task)) = .ok l

/-- No obsolete binding of an open task waits to be released. -/
def Calm (k : Terms) (w : World) : Prop := k.prompt → ∀ t, ¬ Waiting w t

theorem restore_eq_ok {snapshot : PipelineSnapshot} {s : PipelineState}
    (h : PipelineState.restore snapshot v = .ok s) : s = .ofSnapshot snapshot v.workflow := by
  unfold PipelineState.restore at h
  generalize PipelineState.ofSnapshot snapshot v.workflow = s0 at h ⊢
  have h := (ite_error_eq_ok.mp h).2
  have h := (ite_error_eq_ok.mp h).2
  have h := (ite_error_eq_ok.mp h).2
  have h := (ite_error_eq_ok.mp h).2
  split at h
  · cases h
  · have h := (ite_error_eq_ok.mp h).2
    have h := (ite_error_eq_ok.mp h).2
    have h := (ite_error_eq_ok.mp h).2
    have h := (ite_error_eq_ok.mp h).2
    have h := (ite_error_eq_ok.mp h).2
    have h := (ite_error_eq_ok.mp h).2
    split at h
    · unfold PipelineState.restoreDone at h
      split at h
      · cases h
      · exact (Except.ok.inj (ite_error_eq_ok.mp h).2).symm
    · exact (Except.ok.inj h).symm

theorem validate_eq_ok {wf : Workflow} (h : validate wf = .ok v) : v.workflow = wf := by
  unfold validate at h
  split at h
  · cases h
  · split at h
    · rename_i v' hv
      obtain rfl := Except.ok.inj h
      unfold Workflow.validated at hv
      split at hv
      · rw [← Except.ok.inj hv]
      · cases hv
    · cases h

theorem restored_eq_ok {wf : Option Workflow} (h : restored id r wf = .ok l) :
    l.task = r.task ∧ l.version = r.version ∧ r.progress = some l.progress ∧
      l.state.taskId = id ∧ ∃ workflow snapshot, wf = some workflow ∧
        r.pipeline = some snapshot ∧ l.state = .ofSnapshot snapshot workflow := by
  unfold restored at h
  obtain ⟨workflow, hwf, h⟩ := bind_eq_ok.mp h
  obtain ⟨-, -, h⟩ := bind_eq_ok.mp h
  obtain ⟨progress, hp, h⟩ := bind_eq_ok.mp h
  obtain ⟨snapshot, hs, h⟩ := bind_eq_ok.mp h
  obtain ⟨v, hv, h⟩ := bind_eq_ok.mp h
  obtain ⟨state, hstate, h⟩ := bind_eq_ok.mp h
  obtain ⟨_, hid, h⟩ := bind_eq_ok.mp h
  obtain ⟨-, -, h⟩ := bind_eq_ok.mp h
  obtain rfl := Except.ok.inj h
  have hp := okOr_eq_ok.mp hp
  have hs := okOr_eq_ok.mp hs
  refine ⟨rfl, rfl, hp, require_eq_ok.mp hid, workflow, snapshot, okOr_eq_ok.mp hwf, ?_, ?_⟩
  · rw [TaskRow.pipeline, hp]
    exact hs
  · cases hr : PipelineState.restore snapshot v with
    | error reason =>
      rw [hr] at hstate
      cases hstate
    | ok s =>
      rw [hr] at hstate
      obtain rfl : s = state := Except.ok.inj hstate
      rw [restore_eq_ok hr, validate_eq_ok hv]

theorem loads_of_restored (ho : Orderly w) (hr : w.row id = some r)
    (h : restored id r (w.workflows.get (pinned r.task)) = .ok l) : ∃ v, Loads w id l r v := by
  obtain ⟨ht, hv, hp, -, workflow, snapshot, hwf, hsnap, hst⟩ := restored_eq_ok h
  obtain ⟨v, st, hs⟩ := ho.standing id r hr
  have hstate : l.state = st := by
    obtain rfl := Option.some.inj (hs.stored.symm.trans hsnap)
    obtain rfl := Option.some.inj (hs.workflow.symm.trans hwf)
    rw [hst, ← hs.invariant.workflow]
    exact PipelineState.ofSnapshot_snapshot st
  exact ⟨v, hr, ht.symm, hv.symm, hp, hstate ▸ hs⟩

/-- A loadable task fails to load only when a call fails. -/
theorem holds_load : Holds (k.contract.within R) (load id)
    (After (fun l s => s = w ∧ Loadable w id ∧ ∃ r v, Loads w id l r v)
      fun _ s => s = w ∧ (k.prompt → Waiting w id → ¬ Loadable w id)) w := by
  refine Holds.of_safe fun ho => ?_
  refine holds_readThen (c := .loadTask id) rfl (fun row hrow => ?_)
    fun _ hu => ⟨rfl, fun hp hw => absurd rfl (hu hp id hw)⟩
  obtain rfl := replies_loadTask.mp hrow
  refine Holds.orRaiseThen (fun (r : TaskRow) hr => ?_) fun hn => ⟨rfl, fun _ _ hl => ?_⟩
  · refine holds_readThen (c := .loadWorkflow r.task.workflowId r.task.workflowVersion) rfl
      (fun workflow hwf => ?_) fun _ hu => ⟨rfl, fun hp hw => absurd trivial (hu hp id hw)⟩
    obtain rfl := replies_loadWorkflow.mp hwf
    cases hl : restored id r (w.workflows.get (r.task.workflowId, r.task.workflowVersion)) with
    | ok l => exact fun _ => ⟨rfl, ⟨r, l, hr, hl⟩, r, loads_of_restored ho hr hl⟩
    | error =>
      refine fun _ => ⟨rfl, fun _ _ hload => ?_⟩
      obtain ⟨r', l', hr', hl'⟩ := hload
      obtain rfl := Option.some.inj (hr.symm.trans hr')
      exact absurd (hl.symm.trans hl') nofun
  · obtain ⟨r, l, hr, -⟩ := hl
    rw [hr] at hn
    cases hn

/-- The state and its task close together. -/
theorem statusOf_isClosed {s : PipelineStatus} : (statusOf s).isClosed = s.isTerminal := by
  cases s <;> rfl

theorem open_of_step {s next : PipelineState} {actions : List PipelineAction}
    (he : step s e = .ok (next, actions))
    (h : r.isOpen = true ∨ r.task.status = statusOf s.status) : r.isOpen = true := by
  rcases h with h | h
  · exact h
  · rw [TaskRow.isOpen, h, statusOf_isClosed, (step_eq_ok_iff.mp he).not_terminal]
    rfl

/-- The row a transition has written. -/
structure Written (w : World) (l : Loaded) (e : PipelineEvent) (v : ValidatedWorkflow)
    (x : Task × PipelineState × List PipelineAction) (r' : TaskRow) : Prop where
  step : step l.state e = .ok (x.2.1, x.2.2)
  task : x.1 = { l.task with status := statusOf x.2.1.status, mergeCommit := x.2.1.mergeCommit }
  row : r'.task = x.1
  standing : Standing w r' v x.2.1

theorem holds_advance (hl : Loads w id l r v)
    (ho : r.isOpen = true ∨ r.task.status = statusOf l.state.status) :
    Holds (k.contract.within (Only id)) (advance l e)
      (After (fun x s => ∃ r', s = w.putRow r' ∧ Written s l e v x r' ∧ (k.steady → Unambiguous w))
        fun _ s => s = w) w := by
  have hid : r.task.id = id := World.id_of_row hl.row
  refine holds_steady fun hu => ?_
  refine holds_readThen (c := .newId) rfl (fun _ _ => ?_) fun _ _ => rfl
  split
  · exact Holds.raise rfl
  · rename_i next actions he
    have hopen := open_of_step he ho
    set task : Task := { l.task with
      status := statusOf next.status
      mergeCommit := next.mergeCommit } with htask
    have hrow : w.row task.id = some r := by
      rw [htask, ← hl.task]
      exact hid ▸ hl.row
    have hre : ∀ progress : Progress, progress.data = ⟨some next.snapshot, none⟩ →
        Rewrite w r ⟨task, r.version + 1, some progress⟩ := by
      intro progress hd
      refine .stepped hopen hl.standing he (by rw [hl.task]) ?_
      change progress.data.pipeline = _
      rw [hd]
    refine Holds.bind (R := After (fun x s => x = true ∧ ∃ r', s = w.putRow r' ∧
      Written s l e v (task, next, actions) r') fun _ s => s = w) ?_ (fun x s _ hx => ?_)
      fun _ _ _ hs => hs
    · refine holds_write (c := .advancePipeline task l.version ⟨some next.snapshot, none⟩
        (confirmationOf l.state e)) (by simp) (fun _ a => ?_) fun _ _ => rfl
      obtain ⟨progress, hd, hadv⟩ := advance_eq hrow
      have hperform : w.perform a (.advancePipeline task l.version ⟨some next.snapshot, none⟩
          (confirmationOf l.state e)) =
          (.ok true, w.putRow ⟨task, r.version + 1, some progress⟩) := by
        change ((.ok (w.advance task l.version ⟨some next.snapshot, none⟩ true).1 :
          Except Refusal Bool), (w.advance task l.version ⟨some next.snapshot, none⟩ true).2) = _
        rw [← hl.version, hadv]
        rfl
      rw [hperform]
      have hwrote : Change w (w.putRow ⟨task, r.version + 1, some progress⟩) :=
        .wrote (by rw [TaskRow.id, hid]; exact hl.row) (hre progress hd)
      have hpinned : pinned task = pinned r.task := by
        rw [htask, hl.task]
        rfl
      have htid : task.id = r.id := by
        rw [htask, TaskRow.id, hl.task]
      have hst : Standing (w.putRow ⟨task, r.version + 1, some progress⟩)
          ⟨task, r.version + 1, some progress⟩ v next := by
        refine ⟨?_, ?_, ?_, ?_⟩
        · rw [World.row_putRow, if_pos rfl]
        · change w.workflows.get (pinned task) = _
          rw [hpinned]
          exact hl.standing.workflow
        · change progress.data.pipeline = _
          rw [hd]
        · change Invariant task.id v next
          rw [htid]
          exact hl.standing.invariant.step he
      exact ⟨hwrote, only_putRow hl.row (hre progress hd).ages, rfl, _, rfl, he, rfl, rfl, hst⟩
    · obtain ⟨rfl, r', rfl, hwr⟩ := hx
      exact Holds.checkThen (fun _ => Holds.pure ⟨r', rfl, hwr, hu⟩) fun h => (by cases h)

/-! What waits after a routine for one task. -/

theorem waiting_of_moves {T : String → Prop} {S : Prop} {E : TaskRow → TaskRow → Prop}
    (h : Moves T S E (Touched T) w w') (ht : ¬ T t) (hw : Waiting w' t) : Waiting w t := by
  obtain ⟨r, v, st, i, b, hs, rfl, ho, hb, hbt, hobs⟩ := hw
  have hrow : w.row r.id = some r := by
    rcases h.row r.id with he | ⟨hT, -⟩
    · exact he ▸ hs.row
    · exact absurd hT ht
  have hbind : w.bindings.get i = some b := by
    rcases h.binding i with he | ⟨-, hT⟩
    · exact he ▸ hb
    · exact absurd (hbt ▸ hT b hb) ht
  exact ⟨r, v, st, i, b, ⟨hrow, h.workflows ▸ hs.workflow, hs.stored, hs.invariant⟩, rfl, ho, hbind,
    hbt, hobs⟩

theorem Calm.only (hc : Calm k w) (h : Only id w w') (hid : k.prompt → ¬ Waiting w' id) :
    Calm k w' := by
  intro hp t ht
  by_cases he : t = id
  · exact hid hp (he ▸ ht)
  · exact hc hp t (waiting_of_moves h he ht)

theorem Calm.fresher (hc : Calm k w) (h : Fresher w w') : Calm k w' :=
  fun hp t ht => hc hp t (h t ht)

/-- A row is open, or closed as its pipeline is. -/
def Follows (w : World) (id : String) : Prop :=
  ∀ r v st, Standing w r v st → r.id = id → r.isOpen = true ∨ r.task.status = statusOf st.status

variable {task : Task} {next : PipelineState} {actions : List PipelineAction}

/-- Obsolete reviewers are let go before anybody is asked. -/
theorem holds_settle (hs : Standing w r v next) (ht : r.task = task) (hb : Batch next actions)
    (hst : task.status = statusOf next.status)
    (hun : k.steady → (∃ a ∈ actions, dispatches a = true) → Dispatchable next false →
      w.messages.get (dispatchId (ticket next) false "") = none) :
    Holds (k.contract.within (Only task.id)) (settle task next actions)
      (After (fun _ s => ¬ Waiting s task.id ∧ Follows s task.id) fun _ _ => True) w := by
  refine holds_readThen (c := .bindings) rfl (fun bindings hbs => ?_) fun _ _ => trivial
  obtain rfl := replies_bindings.mp hbs
  refine ((holds_releaseAll (obsolete next)).wider fun _ _ h => h.tidies.eases.only).bind
    (fun _ s _ hx => ?_) fun _ _ _ _ => trivial
  obtain ⟨hd, hall⟩ := hx
  have hserves : Serves s task next r v := (hs.serves ht).drops hd
  have hid : r.id = task.id := hserves.id
  have hno : ¬ Waiting s task.id := by
    rintro ⟨r', v', st', i, b, hs', hid', -, hb', hbt, hobs⟩
    have hrow := hs'.row
    rw [hid', ← hid, hserves.standing.row] at hrow
    obtain rfl := Option.some.inj hrow
    obtain ⟨-, rfl⟩ := hs'.unique hserves.standing
    have hkept := hall i b hb' hbt
    rw [hobs] at hkept
    cases hkept
  have hacts : Holds (k.contract.within (Assigns task.id)) (forEach (action task next) actions)
      (fun _ _ => True) s := by
    refine holds_actions hb (fun hc r' hr' => ?_) fun ⟨a, ha, hda⟩ => ⟨r, hserves, ?_, ?_⟩
    · rw [← hid, hserves.standing.row] at hr'
      obtain rfl := Option.some.inj hr'
      exact hserves.closed hc
    · intro hsteady hdis _
      refine repeats_of_unsent ?_
      rcases hd.message (dispatchId (ticket next) false "") with he | ⟨hf, -⟩
      · rw [he]
        exact hun hsteady ⟨a, ha, hda⟩ hdis
      · exact hf.elim
    · intro _ _
      refine ⟨?_, hno⟩
      rw [TaskRow.isOpen, ht, hst, (hb.live a ha hda).running]
      rfl
  refine (hacts.bounded.wider fun _ _ h => h.only).mono fun res s' _ hres => ?_
  cases res with
  | error => trivial
  | ok =>
    obtain ⟨-, hmoves, hfresh⟩ := hres
    refine ⟨fun hw => hno (hfresh _ hw), fun r' v' st' hs' hid' => ?_⟩
    obtain ⟨r1, hs1, hid1, hcase⟩ := hs'.back hmoves fun _ _ he => ⟨he.ages, he.pipeline⟩
    have hrow := hs1.row
    rw [hid1, hid', ← hid, hserves.standing.row] at hrow
    obtain rfl := Option.some.inj hrow
    obtain ⟨-, rfl⟩ := hs1.unique hserves.standing
    right
    rcases hcase with rfl | he
    · rw [ht, hst]
    · rw [he.status, ht, hst]

theorem holds_commitTransition (hl : Loads w id l r v) (hc : Calm k w)
    (ho : r.isOpen = true ∨ r.task.status = statusOf l.state.status) :
    Holds (k.contract.within (Only id)) (commitTransition l e)
      (After (fun _ s => Calm k s ∧ Follows s id) fun _ s => Calm k s) w := by
  refine Holds.of_safe fun hord => ?_
  refine (holds_advance hl ho).bounded.bind (fun x s _ hx => ?_) fun _ s _ hx => ?_
  · obtain ⟨task, next, actions⟩ := x
    obtain ⟨⟨r', rfl, hwr, hu⟩, hmoves⟩ := hx
    obtain ⟨he, htask, hrow, hst⟩ := hwr
    simp only at he htask hrow hst
    have hinv := hl.standing.invariant
    obtain ⟨hbatch, hopened⟩ := batch_of_step hinv he
    have hid : task.id = id := by
      rw [htask, ← hl.task]
      exact World.id_of_row hl.row
    have hsettle := holds_settle (k := k) hst hrow hbatch (by rw [htask])
      fun hsteady ⟨a, ha, hda⟩ hdis =>
        unsent_of_step (w := w) hord (hu hsteady) hl.standing he (hopened a ha hda) hdis
    rw [hid] at hsettle
    change Holds _ (orFail task.id _) _ _
    rw [hid]
    refine (holds_orFail hsettle).bounded.mono fun res s' _ hres => ?_
    have honly : Only id w s' := trans_of (Only id) hmoves hres.2
    cases res with
    | error => exact hc.only honly hres.1
    | ok =>
      obtain ⟨⟨hno, hfollow⟩, -⟩ := hres
      exact ⟨hc.only honly fun _ => hno, hfollow⟩
  · obtain ⟨rfl, -⟩ := hx
    exact hc

end Agend.Engine
