import Agend.Engine.Handover

/-! What is found stored under the id of a dispatch. -/
namespace Agend.Engine

open Agend.Library Agend.Pipeline Agend.Runtime Program

variable {k : Terms} {w w' : World} {r : TaskRow} {v : ValidatedWorkflow}
  {st st0 next : PipelineState} {task : Task} {i t : String} {review : Bool} {m : NewMessage}

/-- The stage a dispatch is for. -/
def Dispatchable (st : PipelineState) (review : Bool) : Prop :=
  if review then ∃ role count bound, AtStage st (.approval (.role role) count bound)
  else ∃ role text output, AtStage st (.work role text output)

theorem ticket_of_dispatchable (h : Dispatchable st review) :
    ∃ s, s ∈ st.workflow.stages ∧ st.workflow.stages[st.stageIndex]? = some s ∧
      ticket st = ticketOf st.taskId s.id st.attempt ∧
      if review then ∃ role count bound, s.stage = .approval (.role role) count bound
      else s.isKind .work = true := by
  have named : ∀ {stage}, AtStage st stage → ∃ s, s ∈ st.workflow.stages ∧
      st.workflow.stages[st.stageIndex]? = some s ∧ ticket st = ticketOf st.taskId s.id st.attempt ∧
      s.stage = stage := by
    intro stage hat
    obtain ⟨s, hs, hk⟩ := stage_of_atStage hat
    have hcur : st.currentStage = some s := hs
    exact ⟨s, List.mem_of_getElem? hs, hs, by rw [ticket, hcur]; rfl, hk⟩
  cases review with
  | true =>
    obtain ⟨role, count, bound, hat⟩ : ∃ role count bound, _ := h
    obtain ⟨s, hmem, hs, ht, hk⟩ := named hat
    exact ⟨s, hmem, hs, ht, role, count, bound, hk⟩
  | false =>
    obtain ⟨role, text, output, hat⟩ : ∃ role text output, _ := h
    obtain ⟨s, hmem, hs, ht, hk⟩ := named hat
    exact ⟨s, hmem, hs, ht, WorkflowStage.isKind_work_iff.mpr ⟨role, text, output, hk⟩⟩

/-- A message under the id of a dispatch was sent for the same attempt of the same stage. -/
theorem sentFor_of_get (ho : Orderly w) (hu : Unambiguous w) (hs : Standing w r v st)
    (htask : next.taskId = r.id) (hwf : next.workflow = v.workflow)
    (hd : Dispatchable next review) (hi : review = true → (w.agents.get i).isSome = true)
    (hm : w.messages.get (dispatchId (ticket next) review i) = some m) :
    ∃ v' st0 i', SentFor w m r v' st st0 review i' ∧ (review = true → i' = i) ∧
      (next.stageIndex, next.attempt) = (st0.stageIndex, st0.attempt) := by
  obtain ⟨r1, v1, st1, st0, review1, i1, hsent⟩ := ho.sent _ m hm
  obtain ⟨s, hmem, hsi, htk, hkind⟩ := ticket_of_dispatchable hd
  obtain ⟨s0, hmem0, hsi0, htk0, hkind0⟩ := ticket_of_dispatchable
    hsent.stage
  have hplain : Plain next.taskId := htask ▸ ho.named _ r hs.row
  have hplain0 : Plain st0.taskId := hsent.task ▸ ho.named _ r1 hsent.standing.row
  have hid : dispatchId (ticketOf next.taskId s.id next.attempt) review i =
      dispatchId (ticketOf st0.taskId s0.id st0.attempt) review1 i1 := by
    obtain ⟨team, -, rfl⟩ := hsent.composed
    rw [← htk, ← htk0]
    exact (Table.get_eq_some.mp hm).2.symm
  have plain : ∀ {j}, (w.agents.get j).isSome = true → Plain j := by
    intro j hj
    obtain ⟨agent, ha⟩ := Option.isSome_iff_exists.mp hj
    exact ho.agents _ agent ha
  -- The same task has the same row, so the same workflow.
  have same : next.taskId = st0.taskId → r1 = r ∧ st0.workflow = next.workflow ∧
      w.workflows.get (pinned r.task) = some next.workflow := by
    intro he
    have hrid : r1.id = r.id := by rw [← hsent.task, ← he, htask]
    have hrow := hsent.standing.row
    rw [hrid, hs.row] at hrow
    obtain rfl := Option.some.inj hrow
    have hv : v.workflow = v1.workflow := (hs.unique hsent.standing).1
    exact ⟨rfl, by rw [hsent.workflow, ← hv, hwf], by rw [hwf]; exact hs.workflow⟩
  have finish : next.taskId = st0.taskId → s.id = s0.id → next.attempt = st0.attempt →
      review1 = review → (review = true → i1 = i) → ∃ v' st0 i', SentFor w m r v' st st0 review i' ∧
        (review = true → i' = i) ∧
        (next.stageIndex, next.attempt) = (st0.stageIndex, st0.attempt) := by
    rintro he hsid hatt rfl hii
    obtain ⟨rfl, hw0, -⟩ := same he
    obtain ⟨-, rfl⟩ := hs.unique hsent.standing
    refine ⟨v1, st0, i1, hsent, hii, ?_⟩
    rw [hwf] at hsi
    rw [hw0, hwf] at hsi0
    rw [v.sound.ids _ _ s s0 hsi hsi0 hsid, hatt]
  cases review with
  | false =>
    cases review1 with
    | false =>
      obtain ⟨h1, h2, h3⟩ := dispatchId_work_inj hplain hplain0 hid
      exact finish h1 h2 h3 rfl fun h => (by cases h)
    | true =>
      obtain ⟨h1, h2, rfl⟩ := dispatchId_clash hplain hplain0 (plain hsent.known) hid
      obtain ⟨-, hw0, hget⟩ := same h1
      obtain ⟨role, count, bound, hstage⟩ : ∃ role count bound, _ := hkind0
      rw [hw0] at hmem0
      have hnone := hu _ _ s s0 role count bound _ next.attempt hget hmem hmem0 hkind hstage h2
      have hknown := hsent.known
      rw [hnone] at hknown
      cases hknown
  | true =>
    cases review1 with
    | true =>
      obtain ⟨h1, h2, h3, h4⟩ := dispatchId_review_inj hplain hplain0 (plain (hi rfl))
        (plain hsent.known) hid
      exact finish h1 h2 h3 rfl fun _ => h4.symm
    | false =>
      obtain ⟨h1, h2, rfl⟩ := dispatchId_clash hplain0 hplain (plain (hi rfl)) hid.symm
      obtain ⟨-, hw0, hget⟩ := same h1.symm
      obtain ⟨role, count, bound, hstage⟩ : ∃ role count bound, _ := hkind
      rw [hw0] at hmem0
      have hnone := hu _ _ s0 s role count bound _ st0.attempt hget hmem0 hmem hkind0 hstage h2
      have hknown := hi rfl
      rw [hnone] at hknown
      cases hknown

/-- Nothing was sent under a ticket that a step has just opened. -/
theorem unsent_of_step {e : PipelineEvent} {actions : List PipelineAction} (ho : Orderly w)
    (hu : Unambiguous w) (hs : Standing w r v st) (he : step st e = .ok (next, actions))
    (hlt : st.attempts.getD next.stageIndex 0 < next.attempt) (hd : Dispatchable next false) :
    w.messages.get (dispatchId (ticket next) false i) = none := by
  cases hm : w.messages.get (dispatchId (ticket next) false i) with
  | none => rfl
  | some m =>
    have hinv := hs.invariant.step he
    obtain ⟨v', st0, i', hsent, -, hc⟩ := sentFor_of_get ho hu hs hinv.task hinv.workflow hd
      (fun h => (by cases h)) hm
    obtain ⟨h1, h2⟩ := Prod.mk.inj hc
    have hused := hsent.used
    rw [← h1, ← h2] at hused
    omega

/-- A review is asked again in the same words. -/
theorem agrees_review (ho : Orderly w) (hu : Unambiguous w) (hs : Standing w r v st)
    (hid : r.task.id = task.id) (htitle : r.task.title = task.title)
    (hteam : r.task.teamId = task.teamId) (hl : st.Live) (hd : Dispatchable st true)
    (hi : (w.agents.get i).isSome = true) : Agrees w task st true i := by
  intro old hold
  obtain ⟨v', st0, i', hsent, hii, hc⟩ := sentFor_of_get ho hu hs hs.invariant.task
    hs.invariant.workflow hd (fun _ => hi) hold
  obtain rfl := hii rfl
  obtain ⟨team, hget, rfl⟩ := hsent.composed
  refine ⟨team, hteam ▸ hget, ?_⟩
  cases hsent.current hl.running hc with
  | review h => rw [h.dispatchOf, dispatchOf_congr hid htitle]

/-- The dispatch of the work a task waits for names another head than the one recorded now. -/
def Behind (w : World) (t : String) : Prop :=
  ∃ r v st st0 team i, Standing w r v st ∧ r.id = t ∧ r.isOpen = true ∧ st.status = .running ∧
    Alike st0 st ∧ namedHead st0 ≠ namedHead st ∧ w.teams.get r.task.teamId = some team ∧
    w.messages.get (dispatchId (ticket st) false i) =
      some (dispatchOf w.home team.repo r.task st0 false i)

theorem Behind.back {T : String → Prop} {S : Prop} {E : TaskRow → TaskRow → Prop}
    {B : Option BindingRow → Option BindingRow → Prop} (h : Moves T S E B w w')
    (hE : T t → ∀ r r', E r r' → Ages r r' ∧ r'.pipeline = r.pipeline) (hS : T t → ¬ S)
    (hb : Behind w' t) : Behind w t := by
  obtain ⟨r', v, st, st0, team, i, hs, rfl, ho, hrun, ha, hne, hteam, hm⟩ := hb
  obtain ⟨r, hs0, hid, hages⟩ : ∃ r, Standing w r v st ∧ r.id = r'.id ∧ Ages r r' := by
    by_cases hT : T r'.id
    · obtain ⟨r, hs0, hid, rfl | he⟩ := hs.back h (hE hT)
      · exact ⟨r', hs0, rfl, .refl r'⟩
      · exact ⟨r, hs0, hid, (hE hT r r' he).1⟩
    · refine ⟨r', ⟨?_, h.workflows ▸ hs.workflow, hs.stored, hs.invariant⟩, rfl, .refl r'⟩
      rcases h.row r'.id with he | ⟨hT', -⟩
      · exact he ▸ hs.row
      · exact absurd hT' hT
  refine ⟨r, v, st, st0, team, i, hs0, hid, open_of_ages hages ho, hrun, ha, hne, ?_, ?_⟩
  · rw [← hages.team, ← h.teams]
    exact hteam
  · rw [← dispatchOf_congr hages.id hages.title, ← h.home]
    rcases h.message (dispatchId (ticket st) false i) with he | ⟨hsent, -, hall⟩
    · rw [← he]
      exact hm
    · obtain ⟨t', ht', htask⟩ := hall _ hm
      obtain rfl : r'.task.id = t' := Option.some.inj htask
      exact absurd hsent (hS ht')

/-- What was sent under the ticket of some work would be sent again, to whoever holds the task. -/
def Repeats (w : World) (task : Task) (st : PipelineState) : Prop :=
  ∀ old, w.messages.get (dispatchId (ticket st) false "") = some old →
    ∃ i team, w.teams.get task.teamId = some team ∧
      old = dispatchOf w.home team.repo task st false i ∧ task.assignee = some i ∧
      (st.pendingWorkReason = none → ∃ role text output agent,
        AtStage st (.work role text output) ∧ w.agents.get i = some agent ∧ agent.role = role)

theorem repeats_of_unsent (h : w.messages.get (dispatchId (ticket st) false "") = none) :
    Repeats w task st := by
  intro old hold
  rw [h] at hold
  cases hold

/-- Nobody was sent the work of an open task that nobody holds. -/
theorem unsent_of_unheld (ho : Orderly w) (hu : Unambiguous w) (hs : Serves w task st r v)
    (hopen : r.isOpen = true) (hrun : st.status = .running) (hd : Dispatchable st false)
    (hn : task.assignee = none) : w.messages.get (dispatchId (ticket st) false "") = none := by
  cases hm : w.messages.get (dispatchId (ticket st) false "") with
  | none => rfl
  | some old =>
    obtain ⟨v', st0, i, hsent, -, hc⟩ := sentFor_of_get ho hu hs.standing
      hs.standing.invariant.task hs.standing.invariant.workflow hd (fun h => (by cases h)) hm
    cases hsent.current hrun hc with
    | work h =>
      obtain ⟨-, ha, -⟩ := h hopen
      rw [hs.holder hopen, hn] at ha
      cases ha

/-- Work on an open task is asked again in the same words, unless its branch has moved. -/
theorem repeats_of_open (ho : Orderly w) (hu : Unambiguous w) (hs : Serves w task st r v)
    (hopen : r.isOpen = true) (hrun : st.status = .running) (hd : Dispatchable st false)
    (hb : ¬ Behind w task.id) : Repeats w task st := by
  intro old hold
  obtain ⟨v', st0, i, hsent, -, hc⟩ := sentFor_of_get (i := "") ho hu hs.standing
    hs.standing.invariant.task hs.standing.invariant.workflow hd (fun h => (by cases h)) hold
  obtain ⟨team, hget, rfl⟩ := hsent.composed
  cases hsent.current hrun hc with
  | work h =>
    obtain ⟨halike, ha, hrole⟩ := h hopen
    have hhead : namedHead st0 = namedHead st := by
      by_contra hne
      exact hb ⟨r, v, st, st0, team, i, hs.standing, hs.id, hopen, hrun, halike, hne, hget, hold⟩
    refine ⟨i, team, hs.team ▸ hget, ?_, (hs.holder hopen).symm.trans ha, hrole⟩
    rw [halike.dispatchOf hhead, dispatchOf_congr hs.id hs.title]

end Agend.Engine
