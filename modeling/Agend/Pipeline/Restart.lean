import Agend.Pipeline.Invariant
import Agend.Pipeline.Snapshot

/-! A reachable state survives a restart: restore accepts its snapshot and changes nothing. -/
namespace Agend.Pipeline

open PipelineState

variable {s s' : PipelineState} {A : List PipelineAction}

namespace PipelineState

/-! Reviewers keep the names they came with. -/

/-- Every recorded reviewer has a name. -/
def Named (s : PipelineState) : Prop :=
  (∀ r ∈ s.approvalReviewers, r ≠ "") ∧ ∀ a ∈ s.approvals, ∀ r ∈ a.reviewers, r ≠ ""

theorem Named.entry (h : s.Named) {i : Nat} (he : Entry s i s' A) : s'.Named := by
  have sub : ∀ {j : Nat} {st : WorkflowStage}, ∀ a ∈ (s.entered j st).approvals, a ∈ s.approvals := by
    intro j st a ha
    rw [entered_approvals] at ha
    split_ifs at ha
    · exact List.mem_of_mem_filter ha
    · exact ha
  cases he with
  | asked => exact ⟨by simp, fun a ha => h.2 a (sub a ha)⟩
  | unexpanded => exact ⟨by simp [failTask, clearPartial], fun a ha => h.2 a (sub a ha)⟩
  | finished =>
    split_ifs
    · exact ⟨by simp [finish, settle], h.2⟩
    · exact h

theorem Named.newHead (h : s.Named) (hr : s.Records) {change : PendingHeadChange}
    {s1 : PipelineState} (hn : NewHead s change s1) : s1.Named := by
  refine ⟨by simp [hn.approvalReviewers], ?_⟩
  cases hn with
  | fresh hne => exact fun a ha => h.2 a ((mem_approvals_recordNewHead hr hne).mp ha).1
  | kept hc ho hp =>
    intro a ha
    rw [approvals_rebased hr ho hp] at ha
    obtain ⟨b, hb, rfl⟩ := List.mem_map.mp ha
    split_ifs
    · exact h.2 b hb
    · exact h.2 b hb

theorem Named.returned (h : s.Named) (t : Nat) (reason : String) : (s.returned t reason).Named := by
  refine ⟨by simp, fun a ha => ?_⟩
  rw [returned_approvals] at ha
  exact h.2 a (List.mem_of_mem_filter ha)

theorem Named.headMove (h : s.Named) (hr : s.Records) {change : PendingHeadChange}
    (hm : HeadMove s change s' A) : s'.Named := by
  cases hm with
  | ignored => exact h
  | recorded hn => exact h.newHead hr hn
  | rechecked hn _ _ _ _ he => exact (h.newHead hr hn).entry he
  | returned _ hd =>
    rcases hd with ⟨-, hn⟩ | ⟨-, rfl⟩
    · exact (h.newHead hr hn).returned _ _
    · exact Named.returned (s := s.clearPartial) ⟨by simp [clearPartial], h.2⟩ _ _

theorem Named.failMove (h : s.Named) {reason : String} (hm : FailMove s reason s' A) :
    s'.Named := by
  cases hm with
  | returned => exact h.returned _ _
  | failed => exact ⟨by simp [failTask, clearPartial], h.2⟩

theorem Named.mergeBack (h : s.Named) (so : s.workflow.Sound) (hl : s.Live)
    (hm : MergeBack s s' A) : s'.Named := by
  cases hm with
  | repeated ht hb he => exact Named.entry (s := { s with pendingHeadChanges := [] }) h he
  | moved hf happ =>
    obtain ⟨s1, B, heq, -, -, -, hn⟩ := applyPending_rule
      (s := { s with pendingHeadChanges := [] }) (P := fun s1 _ => s1.Named)
      (fun s1 s2 change last A so1 h1 _ hmv hn => hn.headMove h1.ready.records hmv) so
      (.live hl.clearPending) rfl s.pendingHeadChanges [] h
    rw [heq] at happ
    cases happ
    exact hn

end PipelineState

/-- A reviewer an event brings has a name. -/
def PipelineEvent.Named : PipelineEvent → Prop
  | .approvalGranted _ _ reviewer _ _ => reviewer ≠ ""
  | _ => True

theorem Accepted.named {e : PipelineEvent} (so : s.workflow.Sound) (hi : s.Inv) (h : s.Named)
    (ha : Accepted s e s' A) (he : e.Named) : s'.Named := by
  have enter : ∀ {s1 : PipelineState} {i : Nat} {B : List PipelineAction},
      s1.enterStage i = .ok (s', B) → (∀ r ∈ s1.approvalReviewers, r ≠ "") →
      (∀ a ∈ s1.approvals, ∀ r ∈ a.reviewers, r ≠ "") → s'.Named := fun hen h1 h2 =>
    Named.entry ⟨h1, h2⟩ (enterStage_eq_ok_iff.mp hen)
  cases ha with
  | start hp hne hen => exact enter hen h.1 h.2
  | @workCompleted st _ _ role text output product _ _ hc hst hm hen =>
    have hl := hi.live_of_running hc.running
    have hun := hl.ready.unbound so
      (Live.notBound_of_work so hc.stage (WorkflowStage.isKind_work_iff.mpr ⟨_, _, _, hst⟩))
    refine enter hen ?_ fun a ha => h.2 a (approvals_takeProduct hun ▸ ha)
    intro r hr
    cases product <;> unfold PipelineState.takeProduct at hr <;> simp only at hr
    · split_ifs at hr
      · simp [invalidateHeadBound, dropApprovals, clearPartial] at hr
      · exact h.1 r hr
    · exact h.1 r hr
    · split_ifs at hr <;> exact h.1 r hr
  | submitted hc hst hen => exact enter hen h.1 h.2
  | commandPassed hc hst hen =>
    unfold recordPass at hen
    split_ifs at hen <;> exact enter hen h.1 h.2
  | commandFailed hc hst hx hen => exact h.failMove ((hi.live_of_running hc.running).failMove so hen)
  | @approvalCounted _ _ _ _ _ _ reviewer _ _ next hc hst hb hr hp hlt =>
    have hrev : ∀ r ∈ s.approvalReviewers ++ [reviewer], r ≠ "" := by
      intro r hm
      rcases List.mem_append.mp hm with hm | hm
      · exact h.1 r hm
      · exact List.mem_singleton.mp hm ▸ he
    rcases choosePick_eq hp with ⟨rfl, -⟩ | ⟨_, -, rfl, -⟩ <;> exact ⟨hrev, h.2⟩
  | @approvalMet _ _ _ _ _ _ reviewer _ _ next _ _ hc hst hb hr hp hge hen =>
    have hrev : ∀ r ∈ s.approvalReviewers ++ [reviewer], r ≠ "" := by
      intro r hm
      rcases List.mem_append.mp hm with hm | hm
      · exact h.1 r hm
      · exact List.mem_singleton.mp hm ▸ he
    have happ : next.approvals = s.approvals := by
      rcases choosePick_eq hp with ⟨rfl, -⟩ | ⟨_, -, rfl, -⟩ <;> rfl
    have hrec : ∀ id bound head, ∀ a ∈ (recordApproval
        { next with approvalReviewers := s.approvalReviewers ++ [reviewer] } id bound head).approvals,
        ∀ r ∈ a.reviewers, r ≠ "" := by
      intro id bound head a hm
      rcases List.mem_append.mp hm with hm | hm
      · exact h.2 a (happ ▸ List.mem_of_mem_filter hm)
      · rw [List.mem_singleton.mp hm]
        exact hrev
    rcases completeApproval_eq_ok hen with ⟨-, hen⟩ | ⟨winner, B, -, -, hen, -⟩
    · exact enter hen (by simp [recordApproval]) (hrec _ _ _)
    · exact enter hen (by simp [keepOnlyWinner, recordApproval]) (hrec _ _ _)
  | changesRequested hc hst hb hen =>
    exact h.failMove ((hi.live_of_running hc.running).failMove so hen)
  | commitKnown => split_ifs <;> exact h
  | commitDeferred => exact h
  | commitCreated hr hs hf hw hh hen =>
    exact h.headMove hi.records ((hi.live_of_running hr).headMove so hen)
  | advanceDeferred => exact h
  | mainAdvanced hr hs hf hw hen =>
    exact h.headMove hi.records ((hi.live_of_running hr).headMove so hen)
  | fanoutCompleted hc hst hj hch hen => exact enter hen h.1 h.2
  | fanoutFirst hc hst hch hw hen =>
    obtain ⟨B, hen, -⟩ := after_eq_ok_iff.mp hen
    exact enter hen h.1 h.2
  | stageFailed hc hf hen => exact h.failMove ((hi.live_of_running hc.running).failMove so hen)
  | timeoutNotified => exact h
  | timeoutReassigned hc hf hac hen =>
    obtain ⟨B, hen, -⟩ := after_eq_ok_iff.mp hen
    exact enter hen h.1 h.2
  | timeoutCancelled => exact ⟨by simp [cancelTask, clearPartial], h.2⟩
  | cancelledPending => exact ⟨by simp [cancelTask, clearPartial], h.2⟩
  | cancelledRunning => exact ⟨by simp [cancelTask, clearPartial], h.2⟩
  | mergeFailed hc hst hh hen =>
    have hl := hi.live_of_running hc.running
    exact h.mergeBack so hl
      (hl.mergeBack so ⟨_, hc.stage, WorkflowStage.isKind_merge_iff.mpr hst⟩ hen).2.2
  | mergeCompleted => exact h

/-! The checks of restore, one by one. -/

namespace PipelineState

theorem Inv.stageIndex_le (h : s.Inv) : s.stageIndex ≤ s.workflow.stages.length := by
  cases h with
  | pending h =>
    rw [h]
    exact Nat.zero_le _
  | live h => exact h.index_lt.le
  | finished h => exact h.index
  | stopped h => exact h.index.le

theorem Inv.invalidPosition_eq (so : s.workflow.Sound) (h : s.Inv)
    (hmax : ∀ a ∈ s.attempts, a < attemptLimit) : s.invalidPosition = false := by
  have hlim : s.attempts.contains attemptLimit = false := by
    rw [Bool.eq_false_iff, ne_eq, List.contains_iff_mem]
    exact fun hm => lt_irrefl _ (hmax _ hm)
  have hle := h.stageIndex_le
  simp only [invalidPosition, Bool.or_eq_false_iff, Bool.and_eq_false_iff, decide_eq_false_iff_not,
    hlim, h.records.attempts, ne_eq, not_true_eq_false, not_false_eq_true, true_and]
  refine ⟨⟨⟨by omega, ?_⟩, ?_⟩, ?_⟩
  · cases h with
    | pending h =>
      left
      rw [h]
      exact fun h0 => so.nonempty (List.length_eq_zero_iff.mp h0.symm)
    | live h => exact Or.inl h.index_lt.ne
    | finished h => exact Or.inr (by simp [h.done])
    | stopped h => exact Or.inl h.index.ne
  · cases h with
    | pending h =>
      rw [h]
      exact Or.inl (by simp [unchecked])
    | live h => exact Or.inr h.attempt.ne'
    | finished h => exact Or.inl (by simp [h.done])
    | stopped h => rcases h.status with hs | hs <;> exact Or.inl (by simp [hs])
  · cases h with
    | pending h =>
      rw [h]
      exact Or.inr ⟨by simp [unchecked], by simp [unchecked]⟩
    | live h => exact Or.inl (by simp [h.running])
    | finished h => exact Or.inl (by simp [h.done])
    | stopped h => rcases h.status with hs | hs <;> exact Or.inl (by simp [hs])

theorem Records.unknownCheck_eq (h : s.Records) : s.unknownCheck = false := by
  rw [unknownCheck, List.any_eq_false]
  intro c hc
  obtain ⟨i, st, hs, hid, hk⟩ := (h.checks c hc).stage
  rw [List.any_eq_true.mpr ⟨st, List.mem_of_getElem? hs, by rw [hid, hk]; simp⟩]
  simp

theorem Records.duplicateRecord_eq (h : s.Records) : s.duplicateRecord = false := by
  simp [duplicateRecord, hasDuplicate_eq_false_iff.mpr h.checksNodup,
    hasDuplicate_eq_false_iff.mpr h.approvalsNodup]

theorem badReviewers_eq {reviewers : List String} (hn : ∀ r ∈ reviewers, r ≠ "")
    (hd : reviewers.Nodup) : badReviewers reviewers = false := by
  simp only [badReviewers, hasDuplicate_eq_false_iff.mpr hd, Bool.or_false, List.any_eq_false]
  intro r hr
  simpa using hn r hr

theorem Records.approvalViolation_eq (so : s.workflow.Sound) (h : s.Records) (hn : s.Named)
    {a : ApprovalRecord} (ha : a ∈ s.approvals) : s.approvalViolation a = none := by
  unfold approvalViolation
  cases h.approvals a ha with
  | bound hs hid hst hd hh hsome hp =>
    have hpatch : s.patchId.isSome = true := h.patch ▸ hsome
    rw [← hid, so.find_eq hs]
    simp only [hst, hh, hp, badReviewers_eq (hn.2 a ha) hd]
    simp [Option.isNone_eq_false_iff.mpr hsome, Option.isNone_eq_false_iff.mpr hpatch]
  | unbound hs hid hst hd hh hp =>
    rw [← hid, so.find_eq hs]
    simp [hst, hh, hp, badReviewers_eq (hn.2 a ha) hd]

theorem Inv.inconsistentRecords_eq (h : s.Inv) (hn : s.Named) : s.inconsistentRecords = false := by
  simp only [inconsistentRecords, badReviewers_eq hn.1 h.records.reviewers, h.records.patch,
    Bool.false_or, ne_eq, not_true_eq_false, decide_false, Bool.and_eq_false_iff,
    Bool.not_eq_false', List.isEmpty_iff]
  cases h with
  | pending h =>
    left
    rw [h]
    rfl
  | live h =>
    by_cases hp : s.pendingHeadChanges = []
    · exact Or.inl hp
    · obtain ⟨st, hs, hk⟩ := h.pending hp
      exact Or.inr ((mergeInFlight_iff h.running hs).mpr (WorkflowStage.isKind_merge_iff.mp hk))
  | finished h => exact Or.inl h.pending
  | stopped h => exact Or.inl h.pending

theorem Inv.strayPartial_eq (h : s.Inv) : s.strayPartial = false := by
  simp only [strayPartial, Bool.and_eq_false_iff, Bool.not_eq_false', List.isEmpty_iff,
    decide_eq_false_iff_not]
  by_cases hr : s.status = .running
  · by_cases he : s.approvalReviewers = []
    · exact Or.inl (Or.inr he)
    · obtain ⟨st, approver, count, bound, hs, hst, hlt⟩ :=
        (h.live_of_running hr).collecting (Or.inl he)
      right
      simp [collectsMore, currentStage, hs, hst, hlt]
  · exact Or.inl (Or.inl hr)

theorem Inv.strayReason_eq (h : s.Inv) : s.strayReason = false := by
  have hwork : s.pendingWorkReason ≠ none → s.workflow.At s.stageIndex (·.isKind .work) := by
    cases h with
    | pending h =>
      rw [h]
      exact fun hne => absurd rfl hne
    | live h => exact fun hne => (h.reason hne).1
    | finished h => exact fun hne => absurd h.reason hne
    | stopped h => exact h.reason
  simp only [strayReason, Bool.and_eq_false_iff, Bool.not_eq_false', Option.isSome_eq_false_iff,
    Option.isNone_iff_eq_none]
  by_cases hne : s.pendingWorkReason = none
  · exact Or.inl hne
  · obtain ⟨st, hs, hk⟩ := hwork hne
    exact Or.inr ((atKind_eq hs).trans hk)

theorem Inv.pendingRecords_eq (h : s.Inv) : s.pendingRecords = false := by
  by_cases hp : s.status = .pending
  · rw [h.unchecked_of_pending hp]
    rfl
  · simp [pendingRecords, hp]

theorem Records.badTimeout_eq (h : s.Records) : s.badTimeout = false := by
  unfold badTimeout
  cases ht : s.notifiedTimeout with
  | none => rfl
  | some t =>
    obtain ⟨h1, h2, h3⟩ := h.notified t ht
    simp only [Option.any_some, Bool.or_eq_false_iff, decide_eq_false_iff_not]
    omega

theorem lastFanout_spec {w : Workflow} {st : WorkflowStage} (h : lastFanout w = some st) :
    ∃ f, w.stages[f]? = some st ∧ st.isKind .fanout = true ∧
      ∀ g, f < g → ¬ w.At g (·.isKind .fanout) := by
  obtain ⟨hk, before, after, heq, hno⟩ := List.find?_eq_some_iff_append.mp h
  have hstages : w.stages = after.reverse ++ st :: before.reverse := by
    rw [← List.reverse_reverse w.stages, heq]
    simp
  refine ⟨after.length, by rw [hstages]; simp, hk, fun g hg ⟨sg, hsg, hkg⟩ => ?_⟩
  rw [hstages, List.getElem?_append_right (by simp; omega)] at hsg
  obtain ⟨k, hk'⟩ : ∃ k, g - after.reverse.length = k + 1 :=
    ⟨g - after.length - 1, by simp only [List.length_reverse]; omega⟩
  rw [hk', List.getElem?_cons_succ] at hsg
  have := hno sg (List.mem_reverse.mp (List.mem_of_getElem? hsg))
  simp only at hkg
  simp [hkg] at this

/-- A done task meets the invariants that a restored one is asked for. -/
theorem Finished.doneInvariants_eq (so : s.workflow.Sound) (h : s.Finished) :
    s.doneInvariants = .ok () := by
  have hstage : s.workflow.stages.findSome? s.doneStageViolation = none := by
    rw [List.findSome?_eq_none_iff]
    intro st hm
    obtain ⟨i, hs⟩ := List.getElem?_of_mem hm
    have hi : i < s.workflow.stages.length := (List.getElem?_eq_some_iff.mp hs).1
    unfold doneStageViolation
    split
    · rename_i c hst
      obtain ⟨c, hc, hid⟩ := h.ready.passed i st hi hs (WorkflowStage.isKind_command_iff.mpr ⟨_, hst⟩)
      rw [if_pos (List.any_eq_true.mpr ⟨c, hc, by simp [hid, (h.ready.records.checks c hc).head]⟩)]
    · rename_i approver count hst
      obtain ⟨a, ha, hid⟩ := h.ready.approved i st hi hs
        (WorkflowStage.isKind_approval_iff.mpr ⟨_, _, _, hst⟩)
      rw [if_pos (List.any_eq_true.mpr ⟨a, ha, ?_⟩)]
      cases h.ready.records.approvals a ha with
      | bound _ _ _ _ hh => simp [hid, hh]
      | unbound hj hjid hst' =>
        obtain rfl := so.ids _ _ _ st hj hs (hjid.trans hid)
        rw [Option.some.inj (hj.symm.trans hs), hst] at hst'
        cases hst'
    · rfl
  unfold doneInvariants
  rw [hstage]
  simp only
  cases hf : lastFanout s.workflow with
  | none => rfl
  | some st =>
    obtain ⟨f, hs, -, hlast⟩ := lastFanout_spec hf
    simp only
    rw [if_neg]
    simp only [Bool.and_eq_true, Bool.not_eq_true', not_and, Bool.not_eq_false]
    intro hp
    obtain ⟨c, hc, hsel⟩ := h.exists_winner so ⟨st, hs, hp⟩ hlast
    simp [hc, hsel]

theorem ofSnapshot_snapshot (s : PipelineState) : ofSnapshot s.snapshot s.workflow = s := rfl

/-- Restore accepts the snapshot of any state the invariant holds of. -/
theorem Inv.restore_eq {w : ValidatedWorkflow} (hw : s.workflow = w.workflow) (h : s.Inv)
    (hn : s.Named) (hid : legalTaskId s.taskId = true)
    (hmax : ∀ a ∈ s.attempts, a < attemptLimit) : restore s.snapshot w = .ok s := by
  have so : s.workflow.Sound := hw ▸ w.sound
  have hviol : s.approvals.findSome? s.approvalViolation = none :=
    List.findSome?_eq_none_iff.mpr fun a ha => h.records.approvalViolation_eq so hn ha
  have hgate : (s.mergeInFlight && !(s.mergeGate s.stageIndex).allowed) = false := by
    rw [Bool.and_eq_false_iff]
    by_cases hf : s.mergeInFlight = true
    · obtain ⟨hr, st, hs, hk⟩ := exists_stage_of_mergeInFlight hf
      right
      simpa using (h.live_of_running hr).ready.gate_allowed so
        ⟨st, hs, WorkflowStage.isKind_merge_iff.mpr hk⟩
    · exact Or.inl (by simpa using hf)
  have hof : ofSnapshot s.snapshot w.workflow = s := hw ▸ ofSnapshot_snapshot s
  unfold restore
  simp only [hof, hid, h.invalidPosition_eq so hmax, h.records.unknownCheck_eq,
    h.records.duplicateRecord_eq, hviol, h.inconsistentRecords_eq hn, h.strayPartial_eq,
    h.strayReason_eq, h.pendingRecords_eq, h.records.badTimeout_eq, hgate, Bool.not_true,
    Bool.false_eq_true, if_false]
  split_ifs with hd
  · have hfin : s.Finished := by
      cases h with
      | pending h =>
        rw [h] at hd
        cases hd
      | live h =>
        rw [h.running] at hd
        cases hd
      | finished h => exact h
      | stopped h => rcases h.status with hs | hs <;> rw [hs] at hd <;> cases hd
    unfold restoreDone
    rw [hfin.doneInvariants_eq so]
    simp only
    rw [if_neg]
    simp only [Bool.and_eq_true, Workflow.any_iff, not_and, Bool.not_eq_true,
      Option.isNone_eq_false_iff]
    exact hfin.merged
  · rfl

end PipelineState

/-- A restart loads exactly the state that was stored, whatever events led to it. -/
theorem restore_snapshot {taskId : String} {w : ValidatedWorkflow}
    {history : List PipelineTransition}
    (hid : legalTaskId taskId = true) (hr : (pipeline taskId w).Run history s)
    (hnamed : ∀ t ∈ history, t.event.Named) (hmax : ∀ a ∈ s.attempts, a < attemptLimit) :
    restore s.snapshot w = .ok s := by
  have h := invariant_of_reachable hr.reachable
  have hn : s.Named := by
    clear hmax h
    induction hr with
    | start hs =>
      rw [hs]
      exact ⟨by simp [PipelineState.new, unchecked], by simp [PipelineState.new, unchecked]⟩
    | snoc hr hs ih =>
      have hi := invariant_of_reachable hr.reachable
      exact (step_eq_ok_iff.mp hs).named hi.sound hi.inv
        (ih fun t ht => hnamed t (List.mem_cons_of_mem _ ht)) (hnamed _ List.mem_cons_self)
  exact h.inv.restore_eq h.workflow hn (h.task.symm ▸ hid) hmax

/-- A restart while the merge is in flight and a commit waits for its result. -/
theorem restore_snapshot_builtin :
    let s := scripted .builtinCode [.start, .workCompleted "work" 1 (.branch "b" "h" "p"),
      .submitted "submit" 1 none, .commandFinished "checks" 1 (some "h") (some 0),
      .approvalGranted "review" 1 "ann" (some "h") none, .commitCreated "h'" "p'"]
    s.mergeInFlight = true ∧ s.pendingHeadChanges ≠ [] ∧
      restore s.snapshot .builtinCode = .ok s := by
  intro s
  refine ⟨by decide +kernel, by decide +kernel, ?_⟩
  obtain ⟨history, hr, he⟩ := run_scripted .builtinCode [.start,
    .workCompleted "work" 1 (.branch "b" "h" "p"), .submitted "submit" 1 none,
    .commandFinished "checks" 1 (some "h") (some 0),
    .approvalGranted "review" 1 "ann" (some "h") none, .commitCreated "h'" "p'"]
  refine restore_snapshot (by decide +kernel) hr (fun t ht => ?_) (by decide +kernel)
  have := he t ht
  simp only [List.mem_cons, List.not_mem_nil, or_false] at this
  rcases this with h | h | h | h | h | h <;> rw [h] <;> simp [PipelineEvent.Named]

end Agend.Pipeline
