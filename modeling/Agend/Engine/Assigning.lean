import Agend.Engine.Recall

/-! One assignment from the choice to the message, and the other actions of a pipeline. -/
namespace Agend.Engine

open Agend.Library Agend.Pipeline Agend.Runtime Program

variable {k : Terms} {w w' : World} {r : TaskRow} {v : ValidatedWorkflow} {st : PipelineState}
  {task : Task} {role i : String} {review : Bool} {b : BindingRow}

theorem assigns_putRow {t : String} {r' : TaskRow} (hr : w.row t = some r) (h : Held r r') :
    Assigns t w (w.putRow r') := by
  have hid : r'.id = t := h.ages.id.trans (World.id_of_row hr)
  have hm : Moves (· = t) True Held (Dropped (· = t)) w (w.putRow r') := by
    refine ⟨rfl, rfl, rfl, rfl, rfl, fun _ => Or.inl rfl, fun t' => ?_, fun _ => Or.inl rfl⟩
    rw [World.row_putRow, hid]
    split_ifs with ht
    · exact Or.inr ⟨ht, r, r', by rw [ht]; exact hr, rfl, h⟩
    · exact Or.inl rfl
  exact ⟨hm.mono (fun _ h => h) id (fun _ _ h => h) fun _ _ => Dropped.touched,
    fresher_of_moves hm fun _ _ he => ⟨he.ages, he.pipeline⟩⟩

/-- The assignee of a task is written to its row, which keeps its pipeline. -/
theorem holds_reassign {assignee : Option String} {p : Progress} {event : String}
    (hs : Serves w task st r v) (hp : r.progress = some p)
    (hre : ∀ r' : TaskRow, r'.task = { r.task with assignee := assignee } →
      r'.pipeline = r.pipeline → Rewrite w r r') :
    Holds (k.contract.within (Assigns task.id))
      (Store.advanceTask { r.task with assignee := assignee } r.version p.data event)
      (After (fun x s => x = true ∧ ∃ r' : TaskRow, r'.task = { r.task with assignee := assignee } ∧
        s = w.putRow r' ∧ Standing s r' v st) fun _ _ => True) w := by
  have hrow : w.row (Task.id { r.task with assignee := assignee }) = some r := hs.standing.row
  have hpipe : ∀ progress : Progress, progress.data = p.data →
      TaskRow.pipeline ⟨{ r.task with assignee := assignee }, r.version + 1, some progress⟩ =
        r.pipeline := by
    intro progress hd
    rw [TaskRow.pipeline, TaskRow.pipeline, hp]
    change progress.data.pipeline = p.data.pipeline
    rw [hd]
  have hadv := holds_advanceTask (k := k) (R := Assigns task.id) event hrow
    (fun progress hd => hre _ rfl (hpipe progress hd)) fun progress hd =>
      assigns_putRow (by rw [← hs.id]; exact hrow)
        ⟨(hre ⟨{ r.task with assignee := assignee }, r.version + 1, some progress⟩ rfl
          (hpipe progress hd)).ages, hpipe progress hd, rfl⟩
  refine hadv.mono fun res s _ hres => ?_
  cases res with
  | error => trivial
  | ok x =>
    obtain ⟨rfl, progress, hd, rfl⟩ := hres
    refine ⟨rfl, _, rfl, rfl, hs.standing.later (Change.wrote hrow (hre _ rfl (hpipe progress hd))).grown
      ?_ (hpipe progress hd)⟩
    exact Table.get_put_self

theorem holds_takeTask (hs : Serves w task st r v) (hn : task.assignee = none) (hf : Free w i) :
    Holds (k.contract.within (Assigns task.id)) (takeTask task st i)
      (After (fun _ s => ∃ r' : TaskRow, r'.task = { r.task with assignee := some i } ∧
        s = w.putRow r' ∧ Standing s r' v st) fun _ _ => True) w := by
  refine holds_readThen (c := .loadTask task.id) rfl (fun row hrow => ?_) fun _ _ => trivial
  obtain rfl := replies_loadTask.mp hrow
  have hr : w.row task.id = some r := by
    rw [← hs.id]
    exact hs.standing.row
  refine Holds.orRaiseThen (fun (r1 : TaskRow) hr1 => ?_) fun _ => trivial
  obtain rfl := Option.some.inj (hr.symm.trans hr1)
  refine Holds.orRaiseThen (fun (p : Progress) hp => ?_) fun _ => trivial
  have hnone : r.task.assignee = none := by
    rcases hs.assignee with ha | ha
    · exact ha.trans hn
    · exact ha
  refine (holds_reassign hs hp fun r' ht hp' => .assigned hnone hf ht hp').bind
    (fun x s _ hx => ?_) fun _ _ _ _ => trivial
  obtain ⟨rfl, r', ht, hw, hst⟩ := hx
  exact Holds.check (fun _ => ⟨r', ht, hw, hst⟩) fun h => (by cases h)

/-- What is known of a choice when it is carried out. -/
structure Choice (k : Terms) (w : World) (task : Task) (st : PipelineState) (role i : String)
    (review : Bool) (r : TaskRow) (v : ValidatedWorkflow) : Prop where
  serves : Serves w task st r v
  live : st.Live
  picked : Picked w task st role i review
  stage : if review then ∃ count bound, AtStage st (.approval (.role role) count bound)
    else ∃ text output, AtStage st (.work role text output)
  stays : task.assignee = some i → st.pendingWorkReason = none → review = false →
    ∀ agent, w.agents.get i = some agent → agent.role = role
  agrees : k.steady → Agrees w task st review i
  uncounted : k.prompt → review = true → i ∉ st.approvalReviewers

/-- A reviewer who was asked has the role and the team of the stage. -/
theorem suited_asked (ho : Orderly w) (hs : Serves w task st r v)
    (hst : ∃ count bound, AtStage st (.approval (.role role) count bound))
    (hb : w.bindings.get i = some b) (ht : b.task = task.id) (hk : b.kind = .review)
    (hc : b.ticket = ticket st) : ∃ agent, w.agents.get i = some agent ∧ agent.role = role ∧
      agent.team = r.task.teamId := by
  obtain ⟨count, bound, hst⟩ := hst
  obtain ⟨s, hcur, hkind⟩ := stage_of_atStage hst
  obtain ⟨r', wf, s', role', count', bound', agent, n, hr', hwf, hmem, hkind', htk, ha, hrole, hteam⟩ :=
    ho.suited i b hb hk
  have hbi : b.instanceId = i := (Table.get_eq_some.mp hb).2
  have hr : w.row task.id = some r := by
    rw [← hs.id]
    exact hs.standing.row
  rw [ht, hr] at hr'
  obtain rfl := Option.some.inj hr'
  have hplain := ho.named _ r hr
  have htask : st.taskId = task.id := hs.standing.invariant.task.trans hs.id
  have hcs : st.currentStage = some s := hcur
  have hids : s'.id = s.id := by
    rw [hc, ticket, htask, ht, hcs] at htk
    exact (ticketOf_inj hplain hplain htk).2.1.symm
  have hw : v.workflow = wf := Option.some.inj (hs.standing.workflow.symm.trans hwf)
  obtain ⟨j, hj⟩ := List.getElem?_of_mem hmem
  rw [hs.standing.invariant.workflow] at hcur
  rw [← hw] at hj
  obtain rfl := v.sound.ids j st.stageIndex s' s hj hcur hids
  obtain rfl := Option.some.inj (hj.symm.trans hcur)
  obtain ⟨hap, -, -⟩ := Stage.approval.inj (hkind'.symm.trans hkind)
  rw [← hbi]
  exact ⟨agent, ha, hrole.trans (Approver.role.inj hap), hteam⟩

theorem Choice.bindable (ho : Orderly w) (h : Choice k w task st role i review r v)
    (hn : review = false → task.assignee ≠ none) : Bindable w task st role i review r v := by
  have hs := h.serves
  have hrow : w.row task.id = some r := by
    rw [← hs.id]
    exact hs.standing.row
  have hstage := h.stage
  have hstays := h.stays
  cases h.picked with
  | fresh hnone => exact absurd hnone (hn rfl)
  | held ha hh =>
    refine ⟨hs.standing, hs.id, hs.title, hs.team, fun t r' hr' ho' ha' => ?_, fun _ ho' => ?_,
      fun hc => (by cases hc), hstage, fun _ _ hp agent hag => hstays ha hp rfl agent hag,
      fun hc => (by cases hc), fun hc => (by cases hc)⟩
    · rcases hh with ⟨r1, hr1, ho1, ha1⟩ | ⟨hno, -⟩
      · exact ho.booked.holder t task.id r' r1 i hr' hr1 ho' ho1 ha' ha1
      · exact absurd ha' (hno t r' hr' ho')
    · rw [hs.holder ho', ha]
  | asked hb ht hk hc =>
    have hf := ho.booked.fits i _ hb
    have hbi := (Table.get_eq_some.mp hb).2
    refine ⟨hs.standing, hs.id, hs.title, hs.team, fun t r' hr' ho' ha' => ?_,
      fun hc => (by cases hc), fun _ => ?_, hstage, fun hc => (by cases hc),
      fun _ => suited_asked ho hs hstage hb ht hk hc, fun _ _ => ⟨_, hb, ht, hk⟩⟩
    · rw [← ht]
      exact hf.holder t r' hr' ho' (by rw [hbi]; exact ha')
    · have := hf.review hk r (by rw [ht]; exact hrow)
      rwa [hbi] at this
  | reviewer hf ha hr ht hne hc =>
    refine ⟨hs.standing, hs.id, hs.title, hs.team, fun t r' hr' ho' ha' => ?_,
      fun hc => (by cases hc), fun _ hcon => ?_, hstage, fun hc => (by cases hc),
      fun _ => ⟨_, ha, hr, ht.trans hs.team.symm⟩, fun _ hcon => absurd hcon hc⟩
    · exact absurd ha' (hf.task t r' hr' ho')
    · rcases hs.assignee with ha' | ha'
      · exact hne (ha'.symm.trans hcon)
      · rw [ha'] at hcon
        cases hcon

/-- From the worktree on. -/
theorem holds_send (h : Bindable w task st role i review r v) (hl : st.Live)
    (hag : k.steady → Agrees w task st review i)
    (hfr : k.prompt → review = true → i ∉ st.approvalReviewers) :
    Holds (k.contract.within (Assigns task.id)) (do
      let t ← team task.teamId
      bindWorktree task st t.repo review i
      let me ← Executor.settings
      deliver i (dispatchId (ticket st) review i) (some task.id)
        (dispatchBody (worktreeOf me.home t.repo task st review i) task st review))
      (fun _ _ => True) w := by
  refine holds_team.bind (fun t s _ ht => ?_) fun _ _ _ _ => trivial
  obtain ⟨rfl, ht⟩ := ht
  refine (holds_bindWorktree h).bind (fun _ s' _ hs => ?_) fun _ _ _ _ => trivial
  obtain ⟨hb, bs, rfl⟩ := hs
  refine holds_readThen (c := .settings) rfl (fun me hme => ?_) fun _ _ => trivial
  obtain rfl := replies_settings.mp hme
  exact holds_deliver hb hl ht hag hfr

theorem holds_dispatch (h : Choice k w task st role i review r v) :
    Holds (k.contract.within (Assigns task.id)) (dispatch task st review i) (fun _ _ => True) w := by
  refine Holds.of_safe fun ho => ?_
  unfold dispatch
  split
  · rename_i hcond
    simp only [Bool.and_eq_true, Bool.not_eq_true', Option.isNone_iff_eq_none] at hcond
    obtain ⟨rfl, hn⟩ := hcond
    cases hp : h.picked with
    | held ha =>
      rw [hn] at ha
      cases ha
    | @fresh agent _ hf ha hr ht =>
      refine (holds_takeTask h.serves hn hf).bind (fun _ s ho' hs => ?_) fun _ _ _ _ => trivial
      obtain ⟨r', ht', rfl, hst⟩ := hs
      have hs := h.serves
      have hb : Bindable (w.putRow r') task st role i false r' v := by
        refine ⟨hst, by rw [ht']; exact hs.id, by rw [ht']; exact hs.title,
          by rw [ht']; exact hs.team, fun t r1 hr1 ho1 ha1 => ?_, fun _ _ => by rw [ht'],
          fun hc => (by cases hc), h.stage, fun _ _ _ agent' ha' => ?_, fun hc => (by cases hc),
          fun hc => (by cases hc)⟩
        · rw [World.row_putRow] at hr1
          split_ifs at hr1 with hid
          · rw [hid, TaskRow.id, ht']
            exact hs.id
          · exact absurd ha1 (hf.task t r1 hr1 ho1)
        · obtain rfl := Option.some.inj (ha.symm.trans ha')
          exact hr
      exact holds_send hb h.live h.agrees h.uncounted
  · rename_i hcond
    have hb := h.bindable ho fun hr hn => by simp [hr, hn] at hcond
    exact holds_send hb h.live h.agrees h.uncounted

/-! The hand-off. -/

theorem Serves.drops {s : World} (hs : Serves w task st r v) (h : Drops task.id w s) :
    Serves s task st r v := by
  obtain ⟨r', hs', -, rfl | hf⟩ := hs.standing.forth h fun _ _ hf => hf.elim
  · exact ⟨hs', hs.id, hs.title, hs.team, hs.holder, hs.assignee, hs.closed⟩
  · exact hf.elim

theorem Leaves.drops {s : World} {t : String} (hl : Leaves w r) (h : Drops t w s) :
    Leaves s r := by
  obtain ⟨v, st, role, text, output, holder, agent, hs, hat, hn, hh, ha, hr⟩ := hl
  obtain ⟨r', hs', -, rfl | hf⟩ := hs.forth h fun _ _ hf => hf.elim
  · exact ⟨v, st, role, text, output, holder, agent, hs', hat, hn, hh, h.agents ▸ ha, hr⟩
  · exact hf.elim

/-- The holder gives the task up, and nobody holds it afterwards. -/
theorem holds_handOff (hs : Serves w task st r v) (hl : r.isOpen = true → Leaves w r) :
    Holds (k.contract.within (Assigns task.id)) (handOff task st)
      (After (fun task' s => task' = { r.task with assignee := none } ∧
        ∃ s1 r', Drops task.id w s1 ∧ s = s1.putRow r' ∧ r'.task = task' ∧ Standing s r' v st)
        fun _ _ => True) w := by
  refine holds_readThen (c := .bindings) rfl (fun bindings hb => ?_) fun _ _ => trivial
  obtain rfl := replies_bindings.mp hb
  refine ((holds_releaseAll fun b => decide (b.kind = .work)).wider
    fun _ _ h => h.tidies.assigns).bind (fun _ s _ hx => ?_) fun _ _ _ _ => trivial
  obtain ⟨hd, hall⟩ := hx
  have hs' := hs.drops hd
  have hrow : s.row task.id = some r := by
    rw [← hs.id]
    exact hs'.standing.row
  refine holds_readThen (c := .loadTask task.id) rfl (fun row hr => ?_) fun _ _ => trivial
  obtain rfl := replies_loadTask.mp hr
  refine Holds.orRaiseThen (fun (r1 : TaskRow) hr1 => ?_) fun _ => trivial
  obtain rfl := Option.some.inj (hrow.symm.trans hr1)
  refine Holds.orRaiseThen (fun (p : Progress) hp => ?_) fun _ => trivial
  have hfree : ∀ j b, s.bindings.get j = some b → b.task = r.id → b.kind ≠ .work := by
    intro j b hb ht hk
    have hno := hall j b hb (ht.trans hs.id)
    simp [hk] at hno
  refine (holds_reassign hs' hp fun r' ht hp' =>
    .handedOff hfree (fun ho => (hl ho).drops hd) ht hp').bind (fun x s' _ hx => ?_)
    fun _ _ _ _ => trivial
  obtain ⟨rfl, r', ht, hw, hst⟩ := hx
  exact Holds.checkThen (fun _ => Holds.pure ⟨rfl, s, r', hd, hw, ht, hst⟩) fun h => (by cases h)

/-! Choosing and dispatching. -/

/-- What must be known to give somebody the stage. -/
structure Asks (k : Terms) (w : World) (task : Task) (st : PipelineState) (role : String)
    (review : Bool) (r : TaskRow) (v : ValidatedWorkflow) : Prop where
  serves : Serves w task st r v
  live : st.Live
  stage : if review then ∃ count bound, AtStage st (.approval (.role role) count bound)
    else ∃ text output, AtStage st (.work role text output)
  repeats : k.steady → review = false → Unambiguous w → Repeats w task st
  fresh : k.prompt → review = true → r.isOpen = true ∧ ¬ Waiting w task.id

theorem Asks.dispatchable (h : Asks k w task st role review r v) : Dispatchable st review := by
  have hstage := h.stage
  cases review with
  | true => exact ⟨role, hstage⟩
  | false => exact ⟨role, hstage⟩

/-- An instance chosen by the rules is a choice that can be carried out. -/
theorem Asks.choice (h : Asks k w task st role review r v) (ho : Orderly w)
    (hu : k.steady → Unambiguous w) (hp : Picked w task st role i review)
    (hl : review = false → leavesHolder task st role w.agents.values = false) :
    Choice k w task st role i review r v := by
  refine ⟨h.serves, h.live, hp, h.stage, fun ha hn hr agent hag => ?_, fun hst => ?_,
    fun hpr hr hmem => ?_⟩
  · have hleaves := hl hr
    by_contra hne
    have hmem : agent ∈ w.agents.values := Table.mem_values.mpr (Table.get_eq_some.mp hag).1
    have hid : agent.id = i := (Table.get_eq_some.mp hag).2
    refine absurd hleaves (Bool.not_eq_false _ |>.mpr ?_)
    unfold leavesHolder
    rw [hn, ha]
    simp only [Option.isNone_none, Option.any_some, Bool.true_and, List.any_eq_true,
      Bool.and_eq_true, decide_eq_true_eq]
    exact ⟨agent, hmem, hid, hne⟩
  · have hrep := h.repeats hst
    have known : ∀ {j}, (∃ agent, w.agents.get j = some agent) → (w.agents.get j).isSome = true := by
      rintro j ⟨agent, hj⟩
      rw [hj]
      rfl
    have review_ : ∀ {b : Bool}, b = true → review = b → (w.agents.get i).isSome = true →
        Agrees w task st true i := by
      rintro b rfl rfl hi
      exact agrees_review ho (hu hst) h.serves.standing h.serves.id h.serves.title h.serves.team
        h.live h.dispatchable hi
    cases hp with
    | fresh hnone =>
      intro old hold
      obtain ⟨j, -, -, -, hj, -⟩ := hrep rfl (hu hst) old hold
      rw [hnone] at hj
      cases hj
    | held ha =>
      intro old hold
      obtain ⟨j, team, hget, rfl, hj, -⟩ := hrep rfl (hu hst) old hold
      obtain rfl := Option.some.inj (ha.symm.trans hj)
      exact ⟨team, hget, rfl⟩
    | asked hb ht hk hc =>
      obtain ⟨agent, hag, -⟩ := suited_asked ho h.serves h.stage hb ht hk hc
      exact review_ rfl rfl (known ⟨agent, hag⟩)
    | reviewer _ ha => exact review_ rfl rfl (known ⟨_, ha⟩)
  · obtain ⟨hopen, hno⟩ := h.fresh hpr hr
    cases hp with
    | fresh | held => cases hr
    | reviewer _ _ _ _ _ hc => exact hc hmem
    | @asked b hb ht hk hc =>
      refine hno ⟨r, v, st, i, b, h.serves.standing, h.serves.id, hopen, hb, ht, ?_⟩
      have hbi : b.instanceId = i := (Table.get_eq_some.mp hb).2
      simp [obsolete, hk, hbi, hmem]

theorem holds_holderWaits {R : World → World → Prop} [IsPreorder World R] :
    Holds (k.contract.within R) (holderWaits task review) (fun _ s => s = w) w := by
  unfold holderWaits
  split
  · split
    · exact Holds.pure rfl
    · exact holds_readThen (c := .instance_ _) rfl (fun _ _ => Holds.pure rfl) fun _ _ => rfl
  · exact Holds.pure rfl

/-- From the bindings on. -/
theorem holds_choose (h : Asks k w task st role review r v)
    (hl : review = false → leavesHolder task st role w.agents.values = false) :
    Holds (k.contract.within (Assigns task.id)) (do
      let bindings ← Store.bindings
      let waits ← holderWaits task review
      if waits then Pure.pure ()
      else
        let decision ← decideInstance task st role review w.agents.values bindings
        match decision with
        | .assigned instanceId => dispatch task st review instanceId
        | .askForRole _ | .queue .noEligibleReviewer =>
          let _ ← Store.loadTask task.id
          Pure.pure ()
        | _ => Pure.pure ()) (fun _ _ => True) w := by
  refine Holds.of_safe fun ho => holds_steady fun hu => ?_
  refine holds_readThen (c := .bindings) rfl (fun bindings hb => ?_) fun _ _ => trivial
  obtain rfl := replies_bindings.mp hb
  refine holds_holderWaits.bind (fun waits s _ hs => ?_) fun _ _ _ _ => trivial
  obtain rfl : s = w := hs
  split
  · exact Holds.pure trivial
  · refine holds_decideInstance.bind (fun decision s' _ hd => ?_) fun _ _ _ _ => trivial
    obtain ⟨rfl, hpick⟩ := hd
    have asks : Holds (k.contract.within (Assigns task.id)) (do
        let _ ← Store.loadTask task.id
        Pure.pure () : Routine Unit) (fun _ _ => True) s' :=
      holds_readThen (c := .loadTask task.id) rfl (fun _ _ => Holds.pure trivial) fun _ _ => trivial
    split
    · exact holds_dispatch (h.choice ho hu (hpick _ rfl) hl)
    · exact asks
    · exact asks
    · exact Holds.pure trivial

theorem holds_assign (h : Asks k w task st role review r v) :
    Holds (k.contract.within (Assigns task.id)) (assign task st role review) (fun _ _ => True) w := by
  refine Holds.of_safe fun ho => holds_steady fun hu => ?_
  refine holds_readThen (c := .members) rfl (fun members hm => ?_) fun _ _ => trivial
  obtain rfl := replies_members.mp hm
  split
  · rename_i hcond
    simp only [Bool.and_eq_true, Bool.not_eq_true'] at hcond
    obtain ⟨rfl, hleaves⟩ := hcond
    have hleaves' := hleaves
    unfold leavesHolder at hleaves'
    rw [Bool.and_eq_true, Option.any_eq_true_iff_get, Option.isNone_iff_eq_none] at hleaves'
    obtain ⟨hn, hsome, hany⟩ := hleaves'
    obtain ⟨holder, hholder⟩ := Option.isSome_iff_exists.mp hsome
    simp only [hholder, Option.get_some, List.any_eq_true, Bool.and_eq_true,
      decide_eq_true_eq] at hany
    obtain ⟨agent, hmem, rfl, hne⟩ := hany
    have hag : w.agents.get agent.id = some agent := Table.get_of_mem (Table.mem_values.mp hmem)
    obtain ⟨text, output, hat⟩ : ∃ text output, AtStage st (.work role text output) := h.stage
    have hs := h.serves
    have hl : r.isOpen = true → Leaves w r := fun hopen =>
      ⟨v, st, role, text, output, agent.id, agent, hs.standing, hat, hn,
        (hs.holder hopen).trans hholder, hag, hne⟩
    -- Whoever was told of this work has the role, so nobody was.
    have hunsent : k.steady → w.messages.get (dispatchId (ticket st) false "") = none := by
      intro hst
      cases hm : w.messages.get (dispatchId (ticket st) false "") with
      | none => rfl
      | some old =>
        obtain ⟨j, team, -, -, hj, hrole⟩ := h.repeats hst rfl (hu hst) old hm
        obtain ⟨role', text', output', agent', hat', hag', hr'⟩ := hrole hn
        obtain rfl := Option.some.inj (hholder.symm.trans hj)
        obtain rfl := Option.some.inj (hag.symm.trans hag')
        obtain ⟨rfl, -, -⟩ := Stage.work.inj (Option.some.inj (hat.symm.trans hat'))
        exact absurd hr' hne
    refine (holds_handOff hs hl).bind (fun task' s _ hx => ?_) fun _ _ _ _ => trivial
    obtain ⟨rfl, s1, r', hd, rfl, ht, hst⟩ := hx
    set task' : Task := { r.task with assignee := none } with htask'
    have hid : task'.id = task.id := hs.id
    have hmsg : (s1.putRow r').messages.get (dispatchId (ticket st) false "") =
        w.messages.get (dispatchId (ticket st) false "") := by
      rcases hd.message (dispatchId (ticket st) false "") with he | ⟨hf, -⟩
      · exact he
      · exact hf.elim
    have hasks : Asks k (s1.putRow r') task' st role false r' v := by
      refine ⟨⟨hst, by rw [ht], by rw [ht], by rw [ht], fun _ => by rw [ht], Or.inl (by rw [ht]),
        fun hc => ?_⟩, h.live, h.stage, fun hsteady _ _ => ?_, fun _ hc => (by cases hc)⟩
      · rw [TaskRow.isOpen, ht]
        simpa using hc
      · exact repeats_of_unsent (hmsg.trans (hunsent hsteady))
    have hrest := holds_choose hasks fun _ => by simp [leavesHolder, htask']
    rw [World.putRow_agents, hd.agents, show Assigns task'.id = Assigns task.id by rw [hid]] at hrest
    exact hrest
  · rename_i hcond
    refine holds_choose h fun hr => ?_
    subst hr
    simpa using hcond

end Agend.Engine
