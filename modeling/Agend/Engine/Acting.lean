import Agend.Engine.Assigning

/-! What the actions of a pipeline move, and a transition from the stored state to its actions. -/
namespace Agend.Engine

open Agend.Library Agend.Pipeline Agend.Runtime Program

variable {k : Terms} {w w' : World} {r : TaskRow} {v : ValidatedWorkflow} {st : PipelineState}
  {task : Task} {a : PipelineAction} {A : List PipelineAction} {t : String}

/-- What must be known to carry out the actions of a state. -/
structure Acts (k : Terms) (w : World) (task : Task) (st : PipelineState) (r : TaskRow)
    (v : ValidatedWorkflow) : Prop where
  serves : Serves w task st r v
  repeats : k.steady → Dispatchable st false → Unambiguous w → Repeats w task st
  fresh : k.prompt → Dispatchable st true → r.isOpen = true ∧ ¬ Waiting w task.id

theorem Repeats.moves {T : String → Prop} {E : TaskRow → TaskRow → Prop}
    {B : Option BindingRow → Option BindingRow → Prop} (h : Repeats w task st)
    (hm : Moves T False E B w w') : Repeats w' task st := by
  intro old hold
  rcases hm.message (dispatchId (ticket st) false "") with he | ⟨hf, -⟩
  · rw [he] at hold
    obtain ⟨i, team, hget, rfl, ha, hrole⟩ := h old hold
    refine ⟨i, team, hm.teams ▸ hget, by rw [hm.home], ha, fun hn => ?_⟩
    obtain ⟨role, text, output, agent, hat, hag, hr⟩ := hrole hn
    exact ⟨role, text, output, agent, hat, hm.agents ▸ hag, hr⟩
  · exact hf.elim

theorem Acts.tidies (h : Acts k w task st r v) (hm : Tidies task.id w w') :
    ∃ r', Acts k w' task st r' v := by
  obtain ⟨r', hs, hopen⟩ := h.serves.tidies hm
  refine ⟨r', hs, fun hst hd hu => ?_, fun hp hd => ?_⟩
  · refine (h.repeats hst hd fun key wf s s' role count bound n m hget => ?_).moves hm
    rw [← hm.workflows] at hget
    rw [← hm.agents]
    exact hu key wf s s' role count bound n m hget
  · obtain ⟨ho, hno⟩ := h.fresh hp hd
    exact ⟨hopen.trans ho, fun hw => hno (hm.eases.fresher _ hw)⟩

theorem holds_repoAndGit {R : World → World → Prop} [IsPreorder World R] {e e' : Refusal} :
    Holds (k.contract.within R) (repoAndGit task e e') (fun _ s => s = w) w := by
  refine holds_team.bind (fun x s _ hx => ?_) fun _ _ _ hs => hs
  obtain ⟨rfl, -⟩ := hx
  refine Holds.checkThen (fun _ => ?_) fun _ => rfl
  exact holds_readThen (c := .settings) rfl (fun me _ => Holds.check (fun _ => rfl) fun _ => rfl)
    fun _ _ => rfl

theorem holds_execute {blockedAs : String} {raises : Bool} :
    Holds (k.contract.within (Tidies task.id)) (execute task blockedAs raises a)
      (fun _ _ => True) w := by
  refine Holds.attemptThen (holds_read (c := .execute _ _) rfl) fun x s _ _ => ?_
  split
  · exact holds_note.mono fun _ _ _ _ => trivial
  · exact Holds.pure trivial
  · split
    · exact Holds.raise trivial
    · exact Holds.pure trivial

/-- An action that dispatches nothing only tidies. -/
theorem holds_action_silent (st : PipelineState) (hd : dispatches a = false)
    (hc : task.status.isClosed = true → ClosedAt w task.id) :
    Holds (k.contract.within (Tidies task.id)) (action task st a) (fun _ _ => True) w := by
  cases a with
  | scheduleTimeout | notifyTimeout => exact Holds.pure trivial
  | fanout | cancelFanoutSiblings | reassignStage => exact Holds.raise trivial
  | taskDone | taskCancelled | taskFailed => exact holds_cleanupTerminal _ rfl hc
  | assignWork | returnToWork | requestApproval => cases hd
  | submit | merge =>
    exact holds_repoAndGit.bind (fun _ _ _ _ => holds_execute) fun _ _ _ _ => trivial
  | runCommand =>
    refine holds_repoAndGit.bind (fun _ s _ _ => ?_) fun _ _ _ _ => trivial
    exact Holds.checkThen (fun _ => holds_execute) fun _ => trivial

/-- Somebody is given the stage the task is at. -/
theorem holds_action_dispatch (hs : Serves w task st r v) (hl : st.Live) (hd : dispatches a = true)
    (hw : ∀ role, workRole a = some role → ∃ s text output, st.currentStage = some s ∧
      s.stage = .work role text output)
    (hrep : k.steady → asksForWork a = true → Dispatchable st false → Unambiguous w →
      Repeats w task st)
    (hfresh : k.prompt → Dispatchable st true → r.isOpen = true ∧ ¬ Waiting w task.id) :
    Holds (k.contract.within (Assigns task.id)) (action task st a) (fun _ _ => True) w := by
  have work : ∀ role, workRole a = some role → asksForWork a = true →
      Holds (k.contract.within (Assigns task.id)) (assign task st role false) (fun _ _ => True) w := by
    intro role hrole hasks
    obtain ⟨s, text, output, hcur, hstage⟩ := hw role hrole
    have hat : AtStage st (.work role text output) := by
      rw [AtStage, hcur]
      exact congrArg some hstage
    exact holds_assign ⟨hs, hl, ⟨text, output, hat⟩,
      fun hst _ hu => hrep hst hasks ⟨role, text, output, hat⟩ hu, fun _ hc => (by cases hc)⟩
  cases a with
  | assignWork _ _ role => exact work role rfl rfl
  | returnToWork _ _ role _ => exact work role rfl rfl
  | requestApproval =>
    simp only [action]
    split
    · rename_i role count bound hat
      exact holds_assign ⟨hs, hl, ⟨count, bound, hat⟩, fun _ hc => (by cases hc),
        fun hp _ => hfresh hp ⟨role, count, bound, hat⟩⟩
    · exact Holds.pure trivial
  | _ => cases hd

theorem Batch.tail (h : Batch st (a :: A)) : Batch st A :=
  ⟨(List.pairwise_cons.mp h.alone).2, fun b hb => h.live b (List.mem_cons_of_mem _ hb),
    fun b hb => h.work b (List.mem_cons_of_mem _ hb)⟩

theorem Batch.sublist {B : List PipelineAction} (h : Batch st A) (hs : B.Sublist A) : Batch st B :=
  ⟨h.alone.sublist hs, fun b hb => h.live b (hs.subset hb), fun b hb => h.work b (hs.subset hb)⟩

/-- The actions of one batch, one after the other. -/
theorem holds_actions (hb : Batch st A) (hc : task.status.isClosed = true → ClosedAt w task.id)
    (h : (∃ a ∈ A, dispatches a = true) → ∃ r, Acts k w task st r v) :
    Holds (k.contract.within (Assigns task.id)) (forEach (action task st) A)
      (fun _ _ => True) w := by
  have hloop := Holds.forEach (C := k.contract.within (Assigns task.id)) (f := action task st)
    (P := fun rest s => Batch st rest ∧ (task.status.isClosed = true → ClosedAt s task.id) ∧
      ((∃ a ∈ rest, dispatches a = true) → ∃ r, Acts k s task st r v))
    (E := fun _ _ => True) (l := A) (s := w) ?_ ⟨hb, hc, h⟩
  · exact hloop.mono fun _ _ _ _ => trivial
  · rintro a rest s - ⟨hb, hc, h⟩
    cases hd : dispatches a with
    | true =>
      obtain ⟨r, hacts⟩ := h ⟨a, List.mem_cons_self, hd⟩
      have hrun := (holds_action_dispatch hacts.serves (hb.live a List.mem_cons_self hd) hd
        (hb.work a List.mem_cons_self) (fun hst _ => hacts.repeats hst) hacts.fresh).bounded
      refine hrun.mono fun res s' _ hres => ?_
      cases res with
      | error => trivial
      | ok =>
        refine ⟨hb.tail, fun hcl => (hc hcl).moves hres.2.1 fun _ _ he => he.ages, ?_⟩
        rintro ⟨b, hmem, hb'⟩
        have hno := (List.pairwise_cons.mp hb.alone).1 b hmem hd
        rw [hb'] at hno
        cases hno
    | false =>
      have hrun := (holds_action_silent (k := k) st hd hc).bounded
      refine (hrun.wider fun _ _ h => h.assigns).mono fun res s' _ hres => ?_
      cases res with
      | error => trivial
      | ok =>
        refine ⟨hb.tail, fun hcl => (hc hcl).tidies hres.2, ?_⟩
        rintro ⟨b, hmem, hb'⟩
        obtain ⟨r, hacts⟩ := h ⟨b, List.mem_cons_of_mem _ hmem, hb'⟩
        exact hacts.tidies hres.2

end Agend.Engine
