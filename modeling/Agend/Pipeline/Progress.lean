import Agend.Pipeline.Invariant
import Mathlib.Data.Fintype.EquivFin
import Mathlib.Data.Prod.Lex

/-! Every running task can still be finished by results that succeed. -/
namespace Agend.Pipeline

open PipelineState Library

/-- A result for the current stage that succeeds, from what the stage asked for. -/
inductive Success (s : PipelineState) : PipelineEvent → Prop
  | work {st role text output product} (hs : s.currentStage = some st)
      (hst : st.stage = .work role text output) (hp : productMatches output product = true) :
      Success s (.workCompleted st.id s.attempt product)
  | submit {st forge change} (hs : s.currentStage = some st) (hst : st.stage = .submit forge)
      (hc : change.isSome = true ↔ forge ≠ "local") :
      Success s (.submitted st.id s.attempt change)
  | command {st command} (hs : s.currentStage = some st) (hst : st.stage = .command command) :
      Success s (.commandFinished st.id s.attempt s.currentHead (some 0))
  | approval {st approver count bound reviewer head child} (hs : s.currentStage = some st)
      (hst : st.stage = .approval approver count bound)
      (hr : reviewer ∉ s.approvalReviewers ∧ ∀ a ∈ s.approvals, reviewer ∉ a.reviewers)
      (hh : bound = true → head = s.currentHead)
      (hc : if s.workflow.picks s.stageIndex then ∃ c ∈ s.fanoutChildTaskIds, child = some c
        else child = none) :
      Success s (.approvalGranted st.id s.attempt reviewer head child)
  | fanout {st source join children child} (hs : s.currentStage = some st)
      (hst : st.stage = .fanout source join) (hne : children ≠ []) :
      Success s (.fanoutCompleted st.id s.attempt children child)
  | merge {st head commit} (hs : s.currentStage = some st) (hst : st.stage = .merge)
      (hh : s.currentHead = some head) :
      Success s (.mergeCompleted st.id s.attempt head commit)

/-- Every submission to a forge other than the local one so far carried a change id. -/
def Submits (w : Workflow) (t : PipelineTransition) : Prop :=
  ∀ st ∈ w.stages, ∀ forge, st.stage = .submit forge → forge ≠ "local" →
    ∀ n change, t.event = .submitted st.id n change → change.isSome = true

/-- A task past its submission knows the change, unless the forge is local. -/
def ChangeKnown (s : PipelineState) (i : Nat) : Prop :=
  s.workflow.forgeKind ≠ "local" → (∃ j < i, s.workflow.At j (·.isKind .submit)) →
    s.changeId.isSome = true

variable {taskId : String} {w : ValidatedWorkflow} {s s' : PipelineState} {e : PipelineEvent}
  {A : List PipelineAction} {i : Nat}

namespace ChangeKnown

theorem of_le (h : ChangeKnown s i) {j : Nat} (hw : s'.workflow = s.workflow)
    (hc : s'.changeId = s.changeId) (hj : j ≤ i) : ChangeKnown s' j := by
  rintro hf ⟨k, hk, hat⟩
  rw [hc]
  exact h (hw ▸ hf) ⟨k, by omega, hw ▸ hat⟩

/-- Only approvals are skipped on the way to the stage that is asked. -/
theorem landed (h : ChangeKnown s i) : ChangeKnown s (s.landing i) := by
  rintro hf ⟨j, hj, hat⟩
  refine h hf ⟨j, ?_, hat⟩
  by_contra hcon
  obtain ⟨st, hs, hk⟩ := hat
  have hsat := satisfied_of_lt_landing (not_lt.mp hcon) hj
  rw [Workflow.at_iff hs] at hsat
  cases WorkflowStage.isKind_unique (approvalForStage_isKind hsat) hk

theorem entry (h : ChangeKnown s i) (hi : i ≤ s.workflow.stages.length) (he : Entry s i s' A) :
    ChangeKnown s' s'.stageIndex :=
  h.landed.of_le he.workflow he.changeId (he.stageIndex hi).le

theorem next (h : ChangeKnown s s.stageIndex) {st : WorkflowStage}
    (hs : s.workflow.stages[s.stageIndex]? = some st) (hk : st.isKind .submit = false) :
    ChangeKnown s (s.stageIndex + 1) := by
  rintro hf ⟨j, hj, hat⟩
  refine h hf ⟨j, lt_of_le_of_ne (by omega) ?_, hat⟩
  rintro rfl
  rw [Workflow.at_iff hs, hk] at hat
  cases hat

end ChangeKnown

theorem PipelineState.HeadMove.changeId {change : PendingHeadChange} (hm : HeadMove s change s' A) :
    s'.changeId = s.changeId := by
  cases hm with
  | ignored => rfl
  | recorded hn => exact hn.frame.changeId
  | rechecked hn _ _ _ _ he => exact he.changeId.trans hn.frame.changeId
  | returned _ hd =>
    rw [returned_changeId]
    rcases hd with ⟨-, hn⟩ | ⟨-, rfl⟩
    · exact hn.frame.changeId
    · rfl

theorem ChangeKnown.mergeBack (h : ChangeKnown s s.stageIndex) (so : s.workflow.Sound)
    (hl : s.Live) (hm : MergeBack s s' A) : ChangeKnown s' s'.stageIndex := by
  have hlen := hl.index_lt
  cases hm with
  | repeated ht hb he =>
    have h0 : ChangeKnown { s with pendingHeadChanges := [] } _ := h.of_le rfl rfl ht
    exact h0.entry (ht.trans hlen.le) he
  | moved hf happ =>
    obtain ⟨s1, B, heq, -, -, -, hP⟩ := applyPending_rule
      (s := { s with pendingHeadChanges := [] })
      (P := fun s1 _ => ChangeKnown s1 s1.stageIndex)
      (fun s1 s2 change last A so1 h1 _ hmv hP =>
        hP.of_le hmv.workflow hmv.changeId (hmv.stageIndex_le h1))
      so (.live hl.clearPending) rfl s.pendingHeadChanges [] h
    rw [heq] at happ
    cases happ
    exact hP

theorem ChangeKnown.failMove (h : ChangeKnown s s.stageIndex) {reason : String}
    (hm : FailMove s reason s' A) : ChangeKnown s' s'.stageIndex := by
  cases hm with
  | returned hf htarget ht => exact h.of_le returned_workflow returned_changeId ht.le
  | failed => exact h.of_le rfl rfl le_rfl

/-- Only a submission changes the id, and it is the only way past a submit stage. -/
theorem Accepted.changeKnown (so : s.workflow.Sound) (hi : s.Inv)
    (h : ChangeKnown s s.stageIndex) (ha : Accepted s e s' A)
    (hsub : Submits s.workflow ⟨s, e, s', A⟩) : ChangeKnown s' s'.stageIndex := by
  have entry : ∀ {s1 : PipelineState} {i : Nat} {B : List PipelineAction},
      s1.enterStage i = .ok (s', B) → i ≤ s1.workflow.stages.length → ChangeKnown s1 i →
      ChangeKnown s' s'.stageIndex := fun he hi h => h.entry hi (enterStage_eq_ok_iff.mp he)
  have onward : ∀ {st : WorkflowStage} {id : String} {n : Nat} {s1 : PipelineState}
      {B : List PipelineAction}, Current s st id n → st.isKind .submit = false →
      s1.enterStage (s.stageIndex + 1) = .ok (s', B) → s1.workflow = s.workflow →
      s1.changeId = s.changeId → ChangeKnown s' s'.stageIndex := by
    intro st id n s1 B hc hk he hw hch
    have hlen := (hi.live_of_running hc.running).index_lt
    exact entry he (by rw [hw]; omega) ((h.next hc.stage hk).of_le hw hch le_rfl)
  cases ha with
  | start hp hne he => exact entry he (Nat.zero_le _) fun _ ⟨j, hj, _⟩ => by omega
  | workCompleted hc hst hm he =>
    exact onward hc (by simp [WorkflowStage.isKind, hst, Stage.kind]) he
      frame_takeProduct.workflow frame_takeProduct.changeId
  | @submitted st id n forge change _ _ hc hst he =>
    have hlen := (hi.live_of_running hc.running).index_lt
    refine entry he hlen fun hf _ => ?_
    have hforge := so.forge _ st forge hc.stage hst
    refine hsub st (List.mem_of_getElem? hc.stage) forge hst (hforge ▸ hf) n change ?_
    rw [hc.id]
  | commandPassed hc hst he =>
    exact onward hc (by simp [WorkflowStage.isKind, hst, Stage.kind]) he
      frame_recordPass.workflow frame_recordPass.changeId
  | commandFailed hc hst hx he =>
    exact h.failMove ((hi.live_of_running hc.running).failMove so he)
  | approvalCounted hc hst hb hr hp hlt =>
    have hfr := frame_choosePick hp
    exact h.of_le hfr.workflow hfr.changeId hfr.stageIndex.le
  | @approvalMet st _ _ _ _ _ _ _ _ _ _ _ hc hst hb hr hp hge he =>
    have hk : st.isKind .submit = false := by simp [WorkflowStage.isKind, hst, Stage.kind]
    rcases choosePick_eq hp with ⟨rfl, -⟩ | ⟨_, -, rfl, -⟩
    · rcases completeApproval_eq_ok he with ⟨-, hE⟩ | ⟨winner, B, -, -, hE, -⟩
      · exact onward hc hk hE rfl rfl
      · exact onward hc hk hE rfl rfl
    · rcases completeApproval_eq_ok he with ⟨-, hE⟩ | ⟨winner, B, -, -, hE, -⟩
      · exact onward hc hk hE rfl rfl
      · exact onward hc hk hE rfl rfl
  | changesRequested hc hst hb he =>
    exact h.failMove ((hi.live_of_running hc.running).failMove so he)
  | commitKnown _ hr hs hw hh =>
    split_ifs
    · exact h.of_le rfl rfl le_rfl
    · exact h
  | commitDeferred hf hw hh => exact h.of_le rfl rfl le_rfl
  | commitCreated hr hs hf hw hh he =>
    have hl := hi.live_of_running hr
    have hm := hl.headMove so he
    exact h.of_le hm.workflow hm.changeId (hm.stageIndex_le hl)
  | advanceDeferred hf hw => exact h.of_le rfl rfl le_rfl
  | mainAdvanced hr hs hf hw he =>
    have hl := hi.live_of_running hr
    have hm := hl.headMove so he
    exact h.of_le hm.workflow hm.changeId (hm.stageIndex_le hl)
  | fanoutCompleted hc hst hj hch he =>
    exact onward hc (by simp [WorkflowStage.isKind, hst, Stage.kind]) he rfl rfl
  | fanoutFirst hc hst hch hw he =>
    obtain ⟨B, hE, -⟩ := after_eq_ok_iff.mp he
    exact onward hc (by simp [WorkflowStage.isKind, hst, Stage.kind]) hE rfl rfl
  | stageFailed hc hf he => exact h.failMove ((hi.live_of_running hc.running).failMove so he)
  | timeoutReassigned hc hf hac he =>
    obtain ⟨B, hE, -⟩ := after_eq_ok_iff.mp he
    exact entry hE (hi.live_of_running hc.running).index_lt.le h
  | timeoutNotified | timeoutCancelled | cancelledPending | cancelledRunning | mergeCompleted =>
    exact h.of_le rfl rfl le_rfl
  | mergeFailed hc hst hh he =>
    have hl := hi.live_of_running hc.running
    exact h.mergeBack so hl
      (hl.mergeBack so ⟨_, hc.stage, WorkflowStage.isKind_merge_iff.mpr hst⟩ he).2.2

namespace PipelineState

/-- Whatever a command names is known by the time it runs. -/
theorem Ready.exists_expansion (so : s.workflow.Sound) (h : s.Ready i) (hc : ChangeKnown s i)
    {st : WorkflowStage} {c : String} (hs : s.workflow.stages[i]? = some st)
    (hst : st.stage = .command c) :
    ∃ text, expandCommandPlaceholders c s.commandContext = .ok text := by
  obtain ⟨used, hused, hsource⟩ := so.command i st c hs hst
  refine (expandCommandPlaceholders_isOk_iff hused _).mpr fun p hp => ?_
  obtain ⟨hbranch, hhead⟩ := h.head_isSome so
    ⟨st, hs, WorkflowStage.needsHead_of_isHeadBound (WorkflowStage.isHeadBound_iff.mpr
      (Or.inl (WorkflowStage.isKind_command_iff.mpr ⟨c, hst⟩)))⟩
  cases p with
  | pr =>
    have hforge : s.workflow.forgeKind ≠ "local" := fun hl => so.localPr hl i st c used hs hst hused hp
    obtain ⟨j, hj, hat⟩ := hsource .pr hp
    exact Option.isSome_iff_ne_none.mp (hc hforge ⟨j, hj, by simpa using hat⟩)
  | head => exact Option.isSome_iff_ne_none.mp hhead
  | branch => exact Option.isSome_iff_ne_none.mp hbranch

/-- From a settled stage the task moves on: it is done or waits further along. -/
theorem Ready.advances (so : s.workflow.Sound) (h : s.Ready i) (hc : ChangeKnown s i)
    (hr : s.status = .running) (hi : i ≤ s.workflow.stages.length) :
    ∃ s' A, s.enterStage i = .ok (s', A) ∧
      (s'.status = .done ∨ s'.status = .running ∧ i ≤ s'.stageIndex) := by
  obtain ⟨s', A, he⟩ := h.exists_enter so
  refine ⟨s', A, he, ?_⟩
  have hE := enterStage_eq_ok_iff.mp he
  have hle : i ≤ s'.stageIndex := by
    rw [hE.stageIndex hi]
    exact le_landing i
  cases hE with
  | asked => exact Or.inr ⟨by simpa using hr, hle⟩
  | unexpanded hs hst hx =>
    obtain ⟨text, ht⟩ := (h.landed so).exists_expansion so hc.landed hs hst
    rw [ht] at hx
    cases hx
  | finished =>
    left
    split_ifs <;> rfl

/-- A pick agrees with the reviewers so far. -/
theorem Live.exists_choosePick (so : s.workflow.Sound) (h : s.Live) :
    ∃ child next, s.choosePick child = .ok next ∧
      if s.workflow.picks s.stageIndex then ∃ c ∈ s.fanoutChildTaskIds, child = some c
      else child = none := by
  unfold choosePick
  split_ifs with hp
  · obtain ⟨c, hc, hagree⟩ : ∃ c ∈ s.fanoutChildTaskIds, ∀ p ∈ s.pendingPick, p = c := by
      cases hpp : s.pendingPick with
      | none =>
        obtain ⟨c, hc⟩ := List.exists_mem_of_ne_nil _ (h.children_ne_nil so hp)
        exact ⟨c, hc, by rintro p ⟨⟩⟩
      | some p =>
        refine ⟨p, (h.pick p (by rw [hpp]; rfl)).1, ?_⟩
        intro q hq
        exact (Option.some.inj hq).symm
    refine ⟨some c, { s with pendingPick := some c }, ?_, c, hc, rfl⟩
    have hany : s.pendingPick.any (· ≠ c) = false := by
      rw [Bool.eq_false_iff, ne_eq, Option.any_eq_true]
      rintro ⟨p, hpp, hne⟩
      exact (of_decide_eq_true hne) (hagree p hpp)
    rw [Option.some_or]
    simp only [List.contains_iff_mem.mpr hc, hany, Bool.not_true, Bool.or_false,
      Bool.false_eq_true, if_false]
  · exact ⟨none, s, rfl, rfl⟩

/-- A settled pick leaves only its winner. -/
theorem completeApproval_of_pick (s : PipelineState) {id : String} {bound : Bool}
    {head : Option String} {winner : String} (hp : s.workflow.picks s.stageIndex = true)
    (hw : s.pendingPick = some winner) {s' : PipelineState} {B : List PipelineAction}
    (he : (keepOnlyWinner { s.recordApproval id bound head with pendingPick := none }
      winner).1.enterStage (s.stageIndex + 1) = .ok (s', B)) :
    ∃ A, s.completeApproval id bound head = .ok (s', A) := by
  rw [completeApproval_eq, if_pos hp, hw]
  exact ⟨_, after_eq_ok_iff.mpr ⟨B, he, rfl⟩⟩

/-- The event is accepted and leads on: the task is done, waits further along, or has one more
reviewer. -/
def LeadsOn (s : PipelineState) (e : PipelineEvent) : Prop :=
  ∃ s' A, Accepted s e s' A ∧ (s'.status = .done ∨ s'.status = .running ∧
    (s.stageIndex < s'.stageIndex ∨ s'.stageIndex = s.stageIndex ∧
      s'.approvalReviewers.length = s.approvalReviewers.length + 1))

/-- Once its stage is settled in `s1`, the task leads on to the next one. -/
theorem leadsOn_of_ready {s1 : PipelineState} (hr : s1.Ready (s.stageIndex + 1))
    (so : s1.workflow.Sound) (hc : ChangeKnown s1 (s.stageIndex + 1))
    (hrun : s1.status = .running) (hlen : s.stageIndex + 1 ≤ s1.workflow.stages.length)
    (ha : ∀ s' A, s1.enterStage (s.stageIndex + 1) = .ok (s', A) → ∃ B, Accepted s e s' B) :
    LeadsOn s e := by
  obtain ⟨s', A, he, hor⟩ := hr.advances so hc hrun hlen
  obtain ⟨B, hB⟩ := ha s' A he
  exact ⟨s', B, hB, hor.imp_right fun h => ⟨h.1, Or.inl h.2⟩⟩

theorem Live.leadsOn_approval (so : s.workflow.Sound) (h : s.Live)
    (hc : ChangeKnown s s.stageIndex) {st : WorkflowStage} {approver : Approver} {count : Nat}
    {bound : Bool} (hs : s.workflow.stages[s.stageIndex]? = some st)
    (hst : st.stage = .approval approver count bound) {reviewer : String} {child : Option String}
    {next : PipelineState} (hr : reviewer ∉ s.approvalReviewers)
    (hp : s.choosePick child = .ok next) :
    LeadsOn s (.approvalGranted st.id s.attempt reviewer s.currentHead child) := by
  have hcur : Current s st st.id s.attempt := ⟨h.running, hs, rfl, rfl⟩
  have hb : bound = true → s.currentHead.isSome = true ∧ s.currentHead = s.currentHead := by
    rintro rfl
    refine ⟨(h.ready.head_isSome so ⟨st, hs, ?_⟩).2, rfl⟩
    exact WorkflowStage.needsHead_of_isHeadBound (WorkflowStage.isHeadBound_iff.mpr
      (Or.inr (WorkflowStage.isBoundApproval_iff.mpr ⟨_, _, hst⟩)))
  have hfr := frame_choosePick hp
  by_cases hlt : s.approvalReviewers.length + 1 < count
  · refine ⟨_, [], .approvalCounted hcur hst hb hr hp hlt, Or.inr ⟨?_, Or.inr ⟨?_, ?_⟩⟩⟩
    · exact hfr.status.trans h.running
    · exact hfr.stageIndex
    · simp
  · have hge : count ≤ s.approvalReviewers.length + 1 := by omega
    have hknown := hc.next hs (by simp [WorkflowStage.isKind, hst, Stage.kind])
    have hlen := h.index_lt
    by_cases hpick : s.workflow.picks s.stageIndex = true
    · rcases choosePick_eq hp with ⟨-, -, hno⟩ | ⟨winner, -, rfl, -⟩
      · rw [hpick] at hno
        cases hno
      · refine leadsOn_of_ready (h.ready_picked so hs hst hb hr hp hge hpick winner) so
          (hknown.of_le rfl rfl le_rfl) h.running hlen fun s' A he => ?_
        obtain ⟨B, hB⟩ := completeApproval_of_pick { s with
            pendingPick := some winner
            approvalReviewers := s.approvalReviewers ++ [reviewer] } hpick rfl he
        exact ⟨B, .approvalMet hcur hst hb hr hp hge hB⟩
    · have hno := Bool.eq_false_iff.mpr hpick
      rcases choosePick_eq hp with ⟨rfl, -⟩ | ⟨winner, -, -, -, -, hyes⟩
      · refine leadsOn_of_ready (h.ready_approvalMet so hs hst hb hr hp hge hno) so
          (hknown.of_le rfl rfl le_rfl) h.running hlen fun s' A he => ?_
        refine ⟨A, .approvalMet hcur hst hb hr hp hge ?_⟩
        rw [completeApproval_eq, if_neg hpick]
        exact he
      · exact absurd hyes hpick

/-- Some successful result leads a live task on. -/
theorem Live.progress (so : s.workflow.Sound) (h : s.Live) (hc : ChangeKnown s s.stageIndex) :
    ∃ e, Success s e ∧ LeadsOn s e := by
  obtain ⟨st, hs⟩ := h.stage
  have hlen := h.index_lt
  have hcur : Current s st st.id s.attempt := ⟨h.running, hs, rfl, rfl⟩
  cases hst : st.stage with
  | work role text output =>
    obtain ⟨product, hp⟩ : ∃ product, productMatches output product = true := by
      cases output with
      | branch => exact ⟨.branch "" "" "", rfl⟩
      | result => exact ⟨.result "" none, rfl⟩
      | plan => exact ⟨.plan [], rfl⟩
    have hfr : Frame s (s.takeProduct product) := frame_takeProduct
    have hknown := hc.next hs (by simp [WorkflowStage.isKind, hst, Stage.kind])
    exact ⟨_, .work hs hst hp, leadsOn_of_ready (h.ready_takeProduct so hs hst hp)
      (hfr.workflow ▸ so) (hknown.of_le hfr.workflow hfr.changeId le_rfl)
      (hfr.status.trans h.running) (by rw [hfr.workflow]; exact hlen)
      fun s' A he => ⟨A, .workCompleted hcur hst hp he⟩⟩
  | submit forge =>
    obtain ⟨change, hchange⟩ : ∃ change : Option String, change.isSome = true ↔ forge ≠ "local" := by
      by_cases hf : forge = "local"
      · exact ⟨none, by simp [hf]⟩
      · exact ⟨some "", by simp [hf]⟩
    have hforge := so.forge _ st forge hs hst
    exact ⟨_, .submit hs hst hchange, leadsOn_of_ready (h.ready_submitted so hs hst change) so
      (fun hf _ => hchange.mpr (hforge ▸ hf)) h.running hlen
      fun s' A he => ⟨A, .submitted hcur hst he⟩⟩
  | command command =>
    have hfr : Frame s (s.recordPass st.id s.currentHead) := frame_recordPass
    have hknown := hc.next hs (by simp [WorkflowStage.isKind, hst, Stage.kind])
    exact ⟨_, .command hs hst, leadsOn_of_ready (h.ready_recordPass so hs hst)
      (hfr.workflow ▸ so) (hknown.of_le hfr.workflow hfr.changeId le_rfl)
      (hfr.status.trans h.running) (by rw [hfr.workflow]; exact hlen)
      fun s' A he => ⟨A, .commandPassed hcur hst he⟩⟩
  | approval approver count bound =>
    obtain ⟨child, next, hp, hchild⟩ := h.exists_choosePick so
    obtain ⟨reviewer, hfresh⟩ := Infinite.exists_notMem_finset
      (s.approvalReviewers ++ s.approvals.flatMap (·.reviewers)).toFinset
    simp only [List.mem_toFinset, List.mem_append, List.mem_flatMap, not_or, not_exists,
      not_and] at hfresh
    exact ⟨_, .approval hs hst hfresh (fun _ => rfl) hchild,
      h.leadsOn_approval so hc hs hst hfresh.1 hp⟩
  | merge =>
    have hat : s.workflow.At s.stageIndex (·.isKind .merge) :=
      ⟨st, hs, WorkflowStage.isKind_merge_iff.mpr hst⟩
    obtain ⟨head, hh⟩ := Option.isSome_iff_exists.mp (h.ready.head_isSome so
      ⟨st, hs, WorkflowStage.needsHead_iff.mpr (Or.inl (WorkflowStage.isKind_merge_iff.mpr hst))⟩).2
    exact ⟨.mergeCompleted st.id s.attempt head "", .merge hs hst hh, _, _,
      .mergeCompleted hcur hst hh (h.ready.gate_allowed so hat), Or.inl rfl⟩
  | fanout source join =>
    have hknown := hc.next hs (by simp [WorkflowStage.isKind, hst, Stage.kind])
    have hch : childrenOk ["c"] = true := by decide
    by_cases hj : join = .first
    · subst hj
      have hready : Ready { s with selectedFanoutChild := some "c", fanoutChildTaskIds := ["c"] }
          (s.stageIndex + 1) :=
        h.ready_children so hs hst (List.cons_ne_nil "c" []) (List.nodup_singleton _) (by simp)
      refine ⟨.fanoutCompleted st.id s.attempt ["c"] (some "c"),
        .fanout hs hst (List.cons_ne_nil "c" []), leadsOn_of_ready hready so
          (hknown.of_le rfl rfl le_rfl) h.running hlen fun s' A he => ?_⟩
      exact ⟨_, .fanoutFirst hcur hst hch (List.mem_singleton_self _)
        (after_eq_ok_iff.mpr ⟨A, he, rfl⟩)⟩
    · have hready : Ready { s with selectedFanoutChild := none, fanoutChildTaskIds := ["c"] }
          (s.stageIndex + 1) :=
        h.ready_children so hs hst (List.cons_ne_nil "c" []) (List.nodup_singleton _) (by simp)
      exact ⟨.fanoutCompleted st.id s.attempt ["c"] none,
        .fanout hs hst (List.cons_ne_nil "c" []), leadsOn_of_ready hready so
          (hknown.of_le rfl rfl le_rfl) h.running hlen
          fun s' A he => ⟨A, .fanoutCompleted hcur hst hj hch he⟩⟩

end PipelineState

/-- The reviewers the current stage still lacks. -/
def PipelineState.missing (s : PipelineState) : Nat :=
  match s.currentStage.map WorkflowStage.stage with
  | some (.approval _ count _) => count - s.approvalReviewers.length
  | _ => 0

/-- A successful result keeps the change known. -/
theorem Success.submits (so : s.workflow.Sound) (h : Success s e) :
    Submits s.workflow ⟨s, e, s', A⟩ := by
  intro st hmem forge hst hf n change he
  obtain ⟨i, hi⟩ := List.getElem?_of_mem hmem
  cases h with
  | submit hs hst' hc =>
    obtain ⟨hid, -, rfl⟩ := PipelineEvent.submitted.inj he
    obtain rfl := so.ids _ _ _ _ hs hi hid
    obtain rfl := Option.some.inj (hi.symm.trans hs)
    obtain rfl := Stage.submit.inj (hst'.symm.trans hst)
    exact hc.mpr hf
  | _ => cases he

/-- The position leads on in the order of stages, and within an approval of missing reviewers. -/
theorem PipelineState.Live.measure_lt (h' : s'.Live)
    (hw : s'.workflow = s.workflow)
    (hor : s.stageIndex < s'.stageIndex ∨ s'.stageIndex = s.stageIndex ∧
      s'.approvalReviewers.length = s.approvalReviewers.length + 1) :
    toLex (s'.workflow.stages.length - s'.stageIndex, s'.missing) <
      toLex (s.workflow.stages.length - s.stageIndex, s.missing) := by
  have hlen := h'.index_lt
  rw [Prod.Lex.toLex_lt_toLex]
  rcases hor with hlt | ⟨hi, hrev⟩
  · left
    rw [hw] at hlen ⊢
    simp only
    omega
  · right
    refine ⟨by rw [hw, hi], ?_⟩
    have hne : s'.approvalReviewers ≠ [] := List.length_pos_iff.mp (by omega)
    obtain ⟨st, approver, count, bound, hs, hst, hlt⟩ := h'.collecting (Or.inl hne)
    have hs0 : s.workflow.stages[s.stageIndex]? = some st := by rw [← hw, ← hi, hs]
    simp only [missing, currentStage, hs, hs0, Option.map_some, hst]
    omega

/-- No dead end: from every running state results that succeed lead to a done task. -/
theorem no_dead_end {history : List PipelineTransition}
    (hr : (pipeline taskId w).Run history s) (hrun : s.status = .running)
    (hsub : ∀ t ∈ history, Submits w.workflow t) :
    ∃ newer s', (pipeline taskId w).Run (newer ++ history) s' ∧ s'.status = .done ∧
      ∀ t ∈ newer, Success t.before t.event := by
  have hknown : ChangeKnown s s.stageIndex := by
    clear hrun
    induction hr with
    | start hs =>
      rw [hs]
      rintro - ⟨j, hj, -⟩
      exact absurd hj (Nat.not_lt_zero j)
    | snoc hr hs ih =>
      have hi := invariant_of_reachable hr.reachable
      refine (step_eq_ok_iff.mp hs).changeKnown hi.sound hi.inv
        (ih fun t ht => hsub t (List.mem_cons_of_mem _ ht)) ?_
      rw [hi.workflow]
      exact hsub _ List.mem_cons_self
  refine hr.leads_to (P := fun s => s.status = .running ∧ ChangeKnown s s.stageIndex)
    (fun s => toLex (s.workflow.stages.length - s.stageIndex, s.missing)) ?_ ⟨hrun, hknown⟩
  rintro s hreach ⟨hrun, hknown⟩
  have hi := invariant_of_reachable hreach
  have hl := hi.inv.live_of_running hrun
  obtain ⟨e, hsuccess, s', A, hacc, hor⟩ := hl.progress hi.sound hknown
  have hstep : step s e = .ok (s', A) := step_eq_ok_iff.mpr hacc
  refine ⟨e, s', A, hstep, hsuccess, hor.imp_right fun ⟨hrun', hlater⟩ => ⟨⟨hrun', ?_⟩, ?_⟩⟩
  · exact hacc.changeKnown hi.sound hi.inv hknown (hsuccess.submits hi.sound)
  · have hl' := (hi.step hstep).inv.live_of_running hrun'
    exact hl'.measure_lt (hacc.sameTask hi.sound hi.inv).1 hlater

/-- The built-in workflow after a failed check: the task can still be done. -/
theorem no_dead_end_builtin :
    let s := scripted .builtinCode [.start, .workCompleted "work" 1 (.branch "b" "h" "p"),
      .submitted "submit" 1 none, .commandFinished "checks" 1 (some "h") (some 1)]
    ∃ history s', (pipeline "task" .builtinCode).Run history s' ∧ s'.status = .done ∧
      s.status = .running := by
  intro s
  have hrun : s.status = .running := by decide +kernel
  obtain ⟨history, hr, he⟩ := run_scripted .builtinCode [.start,
    .workCompleted "work" 1 (.branch "b" "h" "p"), .submitted "submit" 1 none,
    .commandFinished "checks" 1 (some "h") (some 1)]
  obtain ⟨newer, s', hr', hdone, -⟩ := no_dead_end hr hrun (by
    intro t ht st hst forge hforge hne
    have hlocal : ∀ st ∈ Workflow.builtinCode.stages, st.stage.kind = .submit →
        st.stage = .submit "local" := by decide +kernel
    rw [hlocal st hst (by rw [hforge]; rfl)] at hforge
    exact absurd (Stage.submit.inj hforge).symm hne)
  exact ⟨_, s', hr', hdone, hrun⟩

end Agend.Pipeline
