import Agend.Pipeline.Invariant

/-! The errors of `step` that would mean a broken state, and where a failure lands. -/
namespace Agend.Pipeline

/-- The errors that blame the state and not the event. -/
def TransitionError.isInternal : TransitionError → Bool
  | .mergeGateClosed | .missingHead | .invalidStageIndex | .emptyWorkflow => true
  | _ => false

/-- The outcome is not an internal error. -/
def Outcome.External (o : Outcome) : Prop := ∀ err, o = .error err → err.isInternal = false

namespace Outcome.External

theorem ok {r : PipelineState × List PipelineAction} : External (.ok r) := by rintro err ⟨⟩

theorem error {err : TransitionError} (h : err.isInternal = false) : External (.error err) := by
  rintro err ⟨⟩
  exact h

theorem of_exists {o : Outcome} (h : ∃ s' A, o = .ok (s', A)) : External o := by
  obtain ⟨s', A, rfl⟩ := h
  exact ok

theorem after {o : Outcome} (h : External o) (actions : List PipelineAction) :
    External (o.after actions) := by
  cases o with
  | error e =>
    rintro err ⟨⟩
    exact h _ rfl
  | ok r => exact ok

end Outcome.External

open PipelineState Outcome

namespace PipelineState.Live

variable {s : PipelineState}

theorem ensureRunning_eq (h : s.Live) : s.ensureRunning = .ok () :=
  ensureRunning_eq_ok_iff.mpr ⟨h.running, h.stage⟩

theorem ensureCurrentStage_external (h : s.Live) {kind : StageKind} {err : TransitionError}
    (he : s.ensureCurrentStage kind = .error err) : err.isInternal = false := by
  simp only [ensureCurrentStage, h.ensureRunning_eq] at he
  split_ifs at he
  cases he
  rfl

theorem currentApproval_external (so : s.workflow.Sound) (h : s.Live) {err : TransitionError}
    (he : s.currentApproval = .error err) : err.isInternal = false := by
  unfold currentApproval at he
  cases hc : s.ensureCurrentStage .approval with
  | error e =>
    rw [hc] at he
    cases he
    exact h.ensureCurrentStage_external hc
  | ok u =>
    obtain ⟨st, hs⟩ := h.stage
    simp only [hc, currentStage, hs, Option.map_some] at he
    split at he
    · rename_i approver count bound hst
      rw [Option.some.injEq] at hst
      split_ifs at he with hb
      -- A head-bound approval is after a branch work stage, so there is a head.
      simp only [Bool.and_eq_true, decide_eq_true_eq] at hb
      have hn : s.workflow.At s.stageIndex (·.needsHead) :=
        ⟨st, hs, WorkflowStage.needsHead_of_isHeadBound (WorkflowStage.isHeadBound_iff.mpr
          (Or.inr (WorkflowStage.isBoundApproval_iff.mpr ⟨approver, count, hb.1 ▸ hst⟩)))⟩
      have := (h.ready.head_isSome so hn).2
      rw [hb.2] at this
      cases this
    · cases he
      rfl

theorem choosePick_external {child : Option String} {err : TransitionError}
    (he : s.choosePick child = .error err) : err.isInternal = false := by
  unfold choosePick at he
  split_ifs at he
  · split at he
    · cases he
      rfl
    · split_ifs at he
      cases he
      rfl
  · cases he
    rfl

theorem onWorkCompleted_external (so : s.workflow.Sound) (h : s.Live) (product : WorkProduct) :
    External (s.onWorkCompleted product) := by
  obtain ⟨st, hs⟩ := h.stage
  simp only [onWorkCompleted, currentStage, hs, Option.map_some]
  split
  · rename_i role text output hst
    rw [Option.some.injEq] at hst
    split_ifs with hm
    · exact .error rfl
    · exact .of_exists ((h.ready_takeProduct so hs hst (by simpa using hm)).exists_enter
        (by rw [frame_takeProduct.workflow]; exact so))
  · exact .error rfl

theorem onSubmitted_external (so : s.workflow.Sound) (h : s.Live) (changeId : Option String) :
    External (s.onSubmitted changeId) := by
  unfold onSubmitted
  cases hc : s.ensureCurrentStage .submit with
  | error e => exact .error (h.ensureCurrentStage_external hc)
  | ok u =>
    obtain ⟨st, hs⟩ := h.stage
    obtain ⟨forge, hst⟩ := WorkflowStage.isKind_submit_iff.mp
      ((ensureCurrentStage_eq_ok_iff h.running hs).mp hc)
    exact .of_exists ((h.ready_submitted so hs hst changeId).exists_enter so)

/-- A failed command or a requested change always has a work stage to go back to. -/
theorem failStage_external (so : s.workflow.Sound) (h : s.Live) (reason : String) :
    External (s.failStage s.stageIndex reason) := by
  obtain ⟨s', A, he, -⟩ := h.failStage so reason
  exact .of_exists ⟨s', A, he⟩

theorem onCommandFinished_external (so : s.workflow.Sound) (h : s.Live) {st : WorkflowStage}
    (hs : s.workflow.stages[s.stageIndex]? = some st) {head : Option String}
    (hh : st.needsHead = true → ∀ x ∈ some head, x = s.currentHead) (code : Option Int) :
    External (s.onCommandFinished st.id head code) := by
  unfold onCommandFinished
  cases hc : s.ensureCurrentStage .command with
  | error e => exact .error (h.ensureCurrentStage_external hc)
  | ok u =>
    have hk := (ensureCurrentStage_eq_ok_iff h.running hs).mp hc
    obtain ⟨command, hst⟩ := WorkflowStage.isKind_command_iff.mp hk
    obtain rfl := hh (WorkflowStage.needsHead_of_isHeadBound
      (WorkflowStage.isHeadBound_iff.mpr (Or.inl hk))) head rfl
    simp only
    split_ifs
    · exact .of_exists ((h.ready_recordPass so hs hst).exists_enter
        (by rw [frame_recordPass.workflow]; exact so))
    · exact h.failStage_external so _

/-- A met count always completes: its pick was chosen by this very approval. -/
theorem completeApproval_ok (so : s.workflow.Sound) (h : s.Live) {st : WorkflowStage}
    (hs : s.workflow.stages[s.stageIndex]? = some st) {approver : Approver} {count : Nat}
    {bound : Bool} (hst : st.stage = .approval approver count bound) {reviewer : String}
    {head child : Option String} {next : PipelineState}
    (hb : bound = true → s.currentHead.isSome = true ∧ head = s.currentHead)
    (hr : reviewer ∉ s.approvalReviewers) (hp : s.choosePick child = .ok next)
    (hge : count ≤ s.approvalReviewers.length + 1) :
    ∃ s' A, completeApproval { next with approvalReviewers := s.approvalReviewers ++ [reviewer] }
      st.id bound head = .ok (s', A) := by
  rcases choosePick_eq hp with ⟨rfl, -, hno⟩ | ⟨winner, -, rfl, -, -, hpick⟩
  · rw [completeApproval_eq, if_neg (by simpa using hno)]
    exact (h.ready_approvalMet so hs hst hb hr hp hge hno).exists_enter so
  · rw [completeApproval_eq, if_pos hpick]
    obtain ⟨s', B, he⟩ := (h.ready_picked so hs hst hb hr hp hge hpick winner).exists_enter so
    exact ⟨s', _, after_eq_ok_iff.mpr ⟨B, he, rfl⟩⟩

theorem onApprovalGranted_external (so : s.workflow.Sound) (h : s.Live) {st : WorkflowStage}
    (hs : s.workflow.stages[s.stageIndex]? = some st) {head : Option String}
    (hh : st.needsHead = true → ∀ x ∈ some head, x = s.currentHead) (reviewer : String)
    (child : Option String) : External (s.onApprovalGranted st.id reviewer head child) := by
  unfold onApprovalGranted
  cases ha : s.currentApproval with
  | error e => exact .error (h.currentApproval_external so ha)
  | ok r =>
    obtain ⟨bound, count⟩ := r
    obtain ⟨⟨approver, hst⟩, hb⟩ := (currentApproval_eq_ok_iff h.running hs).mp ha
    simp only
    split_ifs with hr
    · exact .error rfl
    · cases hp : s.choosePick child with
      | error e => exact .error (choosePick_external hp)
      | ok next =>
        simp only [choosePick_reviewers hp, List.length_append, List.length_singleton]
        split_ifs with hlt
        · exact .ok
        · exact .of_exists (h.completeApproval_ok so hs hst (boundHead_of_current hst hh hb)
            (by simpa using hr) hp (by omega))

theorem onChangesRequested_external (so : s.workflow.Sound) (h : s.Live)
    (reviewer reason : String) : External (s.onChangesRequested reviewer reason) := by
  unfold onChangesRequested
  cases ha : s.currentApproval with
  | error e => exact .error (h.currentApproval_external so ha)
  | ok r => exact h.failStage_external so _

theorem applyHeadChange_external (so : s.workflow.Sound) (h : s.Live) (change : PendingHeadChange) :
    External (s.applyHeadChange change) := by
  obtain ⟨s', A, he, -⟩ := h.applyHeadChange so change
  exact .of_exists ⟨s', A, he⟩

theorem onCommitCreated_external (so : s.workflow.Sound) (h : s.Live) (head patch : String) :
    External (s.onCommitCreated head patch) := by
  simp only [onCommitCreated, h.ensureRunning_eq]
  split_ifs
  · exact .error rfl
  · exact .ok
  · exact .ok
  · exact .ok
  · exact h.applyHeadChange_external so _

theorem onMainAdvanced_external (so : s.workflow.Sound) (h : s.Live) (head patch : String)
    (conflict : Bool) : External (s.onMainAdvanced head patch conflict) := by
  simp only [onMainAdvanced, h.ensureRunning_eq]
  split_ifs
  · exact .error rfl
  · exact .ok
  · exact h.applyHeadChange_external so _

theorem onFanoutCompleted_external (so : s.workflow.Sound) (h : s.Live) (children : List String)
    (child : Option String) : External (s.onFanoutCompleted children child) := by
  unfold onFanoutCompleted
  cases hc : s.ensureCurrentStage .fanout with
  | error e => exact .error (h.ensureCurrentStage_external hc)
  | ok u =>
    obtain ⟨st, hs⟩ := h.stage
    obtain ⟨source, join, hst⟩ := WorkflowStage.isKind_fanout_iff.mp
      ((ensureCurrentStage_eq_ok_iff h.running hs).mp hc)
    simp only [currentStage, hs, Option.map_some, hst]
    by_cases hch : childrenOk children = true
    case neg =>
      rw [childrenOk_iff, Bool.not_eq_false] at hch
      rw [if_pos hch]
      exact .error rfl
    obtain ⟨hne, hnd⟩ := childrenOk_spec hch
    rw [if_neg (by rw [childrenOk_iff.mp hch]; simp)]
    have all : External (enterStage
        { s with selectedFanoutChild := none, fanoutChildTaskIds := children }
        (s.stageIndex + 1)) :=
      .of_exists ((h.ready_children so hs hst hne hnd (by simp)).exists_enter so)
    cases join with
    | first =>
      simp only
      cases child with
      | none => exact .error rfl
      | some winner =>
        simp only
        split_ifs
        · exact .error rfl
        · refine External.after (.of_exists ?_) _
          exact (h.ready_children so hs hst (List.cons_ne_nil winner []) (List.nodup_singleton _)
            (by simp)).exists_enter so
    | all | pick =>
      simp only
      split_ifs
      · exact .error rfl
      · exact all

theorem onStageTimedOut_external (so : s.workflow.Sound) (h : s.Live) (stageId : String) :
    External (s.onStageTimedOut stageId) := by
  obtain ⟨st, hs⟩ := h.stage
  simp only [onStageTimedOut, currentStage, hs]
  split
  · split_ifs
    · exact .error rfl
    · exact .ok
  · exact External.after (.of_exists (h.ready.exists_enter so)) _
  · exact .ok

theorem onMergeFailed_external (so : s.workflow.Sound) (h : s.Live) :
    External s.onMergeFailed := by
  unfold onMergeFailed
  cases hc : s.ensureCurrentStage .merge with
  | error e => exact .error (h.ensureCurrentStage_external hc)
  | ok u =>
    obtain ⟨st, hs⟩ := h.stage
    obtain ⟨s', A, he, -⟩ := h.mergeFailed so
      ⟨st, hs, (ensureCurrentStage_eq_ok_iff h.running hs).mp hc⟩
    exact .of_exists ⟨s', A, he⟩

theorem onMergeCompleted_external (so : s.workflow.Sound) (h : s.Live) (commit : String) :
    External (s.onMergeCompleted commit) := by
  unfold onMergeCompleted
  cases hc : s.ensureCurrentStage .merge with
  | error e => exact .error (h.ensureCurrentStage_external hc)
  | ok u =>
    obtain ⟨st, hs⟩ := h.stage
    have hg := h.ready.gate_allowed so
      ⟨st, hs, (ensureCurrentStage_eq_ok_iff h.running hs).mp hc⟩
    simp only [hg, Bool.not_true, Bool.false_eq_true, if_false]
    exact .ok

end PipelineState.Live

variable {s : PipelineState}

/-- No event draws an internal error from a state the invariant holds of. -/
theorem PipelineState.Inv.step_external (so : s.workflow.Sound) (h : s.Inv) (e : PipelineEvent) :
    External (step s e) := by
  by_cases hr : s.status = .running
  · have hl := h.live_of_running hr
    unfold step
    split_ifs with hf
    · exact .error rfl
    cases hi : e.identity with
    | none =>
      cases e with
      | start =>
        simp only [handle, onStart, hr, ne_eq, reduceCtorEq, not_false_eq_true, if_true]
        exact .error rfl
      | commitCreated head patch => exact hl.onCommitCreated_external so head patch
      | mainAdvanced head patch conflict => exact hl.onMainAdvanced_external so head patch conflict
      | cancel reason =>
        simp only [handle, onCancel, hr, hl.ensureRunning_eq]
        exact .ok
      | _ => cases hi
    | some identity =>
      obtain ⟨id, n, head⟩ := identity
      cases hc : s.checkIdentity ⟨id, n, head⟩ with
      | error err =>
        simp only [hc]
        obtain ⟨st, hs⟩ := hl.stage
        simp only [checkIdentity, hl.ensureRunning_eq, currentStage, hs] at hc
        split_ifs at hc <;> cases hc <;> exact .error rfl
      | ok u =>
        simp only [hc]
        obtain ⟨st, hcur, hh⟩ := checkIdentity_eq_ok_iff.mp hc
        have hid := hcur.id
        cases e with
        | workCompleted => exact hl.onWorkCompleted_external so _
        | submitted => exact hl.onSubmitted_external so _
        | commandFinished =>
          cases hi
          subst hid
          exact hl.onCommandFinished_external so hcur.stage hh _
        | approvalGranted =>
          cases hi
          subst hid
          exact hl.onApprovalGranted_external so hcur.stage hh _ _
        | changesRequested => exact hl.onChangesRequested_external so _ _
        | fanoutCompleted => exact hl.onFanoutCompleted_external so _ _
        | stageFailed => exact hl.failStage_external so _
        | stageTimedOut => exact hl.onStageTimedOut_external so _
        | mergeFailed => exact hl.onMergeFailed_external so
        | mergeCompleted => exact hl.onMergeCompleted_external so _
        | _ => cases hi
  · have hno : s.ensureRunning = .error .notRunning := by simp [ensureRunning, hr]
    have hflight : s.mergeInFlight = false := by simp [mergeInFlight, hr]
    unfold step
    simp only [hflight, Bool.false_and, Bool.false_eq_true, if_false]
    cases hi : e.identity with
    | some identity =>
      simp only [checkIdentity, hno]
      exact .error rfl
    | none =>
      cases e with
      | start =>
        simp only [handle, onStart]
        split_ifs with hp he
        · exact .error rfl
        · exact absurd (List.isEmpty_iff.mp he) so.nonempty
        · have hs := h.unchecked_of_pending (by simpa using hp)
          rw [hs]
          exact .of_exists ((ready_start s.taskId s.workflow).exists_enter so)
      | commitCreated head patch =>
        simp only [handle, onCommitCreated, hno]
        exact .error rfl
      | mainAdvanced head patch conflict =>
        simp only [handle, onMainAdvanced, hno]
        exact .error rfl
      | cancel reason =>
        simp only [handle, onCancel]
        split
        · exact .ok
        · exact absurd ‹_› hr
        · exact .error rfl
      | _ => cases hi

/-- A failure goes to the stage its definition names, else to the most recent work stage. -/
theorem failureTarget_eq (so : s.workflow.Sound) {i t : Nat} {failed : WorkflowStage}
    (hs : s.workflow.stages[i]? = some failed) (ht : s.failureTarget i failed = some t) :
    (∀ target, failed.onFail = some target →
        ∃ st, s.workflow.stages[t]? = some st ∧ st.id = target) ∧
      (failed.onFail = none → ∀ j, t < j → j < i → ¬ s.workflow.At j (·.isKind .work)) := by
  have hi : i < s.workflow.stages.length := (List.getElem?_eq_some_iff.mp hs).1
  unfold failureTarget at ht
  constructor
  · intro target hof
    rw [hof, Option.bind_some] at ht
    cases hx : (s.workflow.stages.take i).findIdx? fun st => st.id = target && st.isKind .work with
    | some k =>
      rw [hx, Option.some_or, Option.some.injEq] at ht
      subst ht
      obtain ⟨hlt, hp, -⟩ := List.findIdx?_eq_some_iff_getElem.mp hx
      simp only [List.length_take] at hlt
      simp only [List.getElem_take, Bool.and_eq_true, decide_eq_true_eq] at hp
      exact ⟨_, List.getElem?_eq_getElem (by omega), hp.1⟩
    | none =>
      obtain ⟨j, hj, sj, hsj, hid, hw⟩ := so.failure i failed target hs hof
      rw [List.findIdx?_eq_none_iff] at hx
      have := hx sj (List.mem_of_getElem? (i := j) (by rw [List.getElem?_take, if_pos hj]; exact hsj))
      simp [hid, hw] at this
  · intro hof
    rw [hof, Option.bind_none, Option.none_or] at ht
    split_ifs at ht
    exact ((previousWork_eq_some_iff hi.le).mp ht).2.2

/-- The events that report a failure of the current stage. -/
def PipelineEvent.failsStage : PipelineEvent → Bool
  | .commandFinished _ _ _ exitCode => exitCode ≠ some 0
  | .changesRequested _ _ _ _ _ => true
  | .stageFailed _ _ _ => true
  | _ => false

theorem Accepted.failMove {s' : PipelineState} {e : PipelineEvent} {A : List PipelineAction}
    (so : s.workflow.Sound) (h : s.Live) (ha : Accepted s e s' A) (he : e.failsStage = true) :
    ∃ reason, FailMove s reason s' A := by
  cases ha with
  | commandPassed => simp [PipelineEvent.failsStage] at he
  | commandFailed hc hst hx hf => exact ⟨_, h.failMove so hf⟩
  | changesRequested hc hst hb hf => exact ⟨_, h.failMove so hf⟩
  | stageFailed hc hm hf => exact ⟨_, h.failMove so hf⟩
  | _ => cases he

/-- In every reachable state no event draws an internal error, a met approval count never lacks
its pick, and a failed check or requested change lands in an earlier work stage, still running. -/
theorem internal_errors_unreachable {taskId : String} {w : ValidatedWorkflow}
    (hs : (pipeline taskId w).Reachable s) (e : PipelineEvent) :
    (step s e ≠ .error .mergeGateClosed ∧ step s e ≠ .error .missingHead ∧
      step s e ≠ .error .invalidStageIndex ∧ step s e ≠ .error .emptyWorkflow) ∧
    (∀ (id reviewer : String) (n count : Nat) (head child : Option String) (bindHead : Bool)
      (next : PipelineState), e = .approvalGranted id n reviewer head child →
      s.checkIdentity ⟨id, n, some head⟩ = .ok () → s.currentApproval = .ok (bindHead, count) →
      s.approvalReviewers.contains reviewer = false → s.choosePick child = .ok next →
      ¬ (next.approvalReviewers ++ [reviewer]).length < count →
      completeApproval { next with approvalReviewers := next.approvalReviewers ++ [reviewer] } id
        bindHead head ≠ .error .fanoutSelectionRequired) ∧
    (∀ (s' : PipelineState) (A : List PipelineAction) (failed : WorkflowStage),
      step s e = .ok (s', A) → e.failsStage = true → s.currentStage = some failed →
      failed.isKind .command = true ∨ failed.isKind .approval = true →
      s'.status = .running ∧ s'.stageIndex < s.stageIndex ∧
        ∃ st, s'.currentStage = some st ∧ st.isKind .work = true ∧
          (∀ target, failed.onFail = some target → st.id = target) ∧
          (failed.onFail = none → ∀ j, s'.stageIndex < j → j < s.stageIndex →
            ¬ s.workflow.At j (·.isKind .work))) := by
  have hi := invariant_of_reachable hs
  have so := hi.sound
  have hext := hi.inv.step_external so e
  refine ⟨⟨fun hc => ?_, fun hc => ?_, fun hc => ?_, fun hc => ?_⟩, ?_, ?_⟩
  · cases hext _ hc
  · cases hext _ hc
  · cases hext _ hc
  · cases hext _ hc
  · intro id reviewer n count head child bindHead next _ hid ha hr hp hge
    obtain ⟨st, hcur, hh⟩ := checkIdentity_eq_ok_iff.mp hid
    obtain ⟨⟨approver, hst⟩, hb⟩ := (currentApproval_eq_ok_iff hcur.running hcur.stage).mp ha
    have hl := hi.inv.live_of_running hcur.running
    have hid' := hcur.id
    subst hid'
    rw [choosePick_reviewers hp] at hge ⊢
    simp only [List.length_append, List.length_singleton, not_lt] at hge
    obtain ⟨s', A, hok⟩ := hl.completeApproval_ok so hcur.stage hst
      (boundHead_of_current hst hh hb) (by simpa using hr) hp hge
    rw [hok]
    rintro ⟨⟩
  · intro s' A failed hstep hf hcur hk
    have ha := step_eq_ok_iff.mp hstep
    have hrun : s.status = .running := by
      cases ha with
      | commandPassed hc => exact hc.running
      | commandFailed hc => exact hc.running
      | changesRequested hc => exact hc.running
      | stageFailed hc => exact hc.running
      | _ => cases hf
    obtain ⟨reason, hm⟩ := ha.failMove so (hi.inv.live_of_running hrun) hf
    cases hm with
    | failed hs' hno =>
      obtain rfl := Option.some.inj (hcur.symm.trans hs')
      rcases hk with hk | hk
      · rw [hno.1] at hk
        cases hk
      · rw [hno.2] at hk
        cases hk
    | @returned t failed' st role text output hs' htarget hlt hst hwork =>
      obtain rfl := Option.some.inj (hcur.symm.trans hs')
      obtain ⟨hid, hlast⟩ := failureTarget_eq so hs' htarget
      refine ⟨returned_status.trans hrun, hlt, st, ?_,
        WorkflowStage.isKind_work_iff.mpr ⟨_, _, _, hwork⟩, fun target hof => ?_, hlast⟩
      · rw [currentStage, returned_workflow, returned_stageIndex, hst]
      · obtain ⟨st', hst', hid'⟩ := hid target hof
        obtain rfl := Option.some.inj (hst.symm.trans hst')
        exact hid'

/-- The built-in workflow at its checks: a failing check sends the task back to work. -/
theorem internal_errors_unreachable_builtin :
    let s := scripted .builtinCode [.start, .workCompleted "work" 1 (.branch "b" "h" "p"),
      .submitted "submit" 1 none]
    s.stageIndex = 2 ∧ ∃ s' A, step s (.commandFinished "checks" 1 (some "h") (some 1)) = .ok (s', A) ∧
      s'.status = .running ∧ s'.stageIndex < s.stageIndex := by
  intro s
  have hr : (pipeline "task" .builtinCode).Reachable s := reachable_scripted _ _
  obtain ⟨r, hstep⟩ := exists_of_isOk
    (by decide +kernel : (step s (.commandFinished "checks" 1 (some "h") (some 1))).isOk = true)
  obtain ⟨h1, h2, -⟩ := (internal_errors_unreachable hr _).2.2 r.1 r.2
    ⟨"checks", .command "cargo test", some 300000, none, none⟩ hstep rfl (by decide +kernel)
    (Or.inl rfl)
  exact ⟨by decide +kernel, r.1, r.2, hstep, h1, h2⟩

end Agend.Pipeline
