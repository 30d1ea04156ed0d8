import Agend.Pipeline.Ready

/-! The ways a live task moves back: rework, and the rechecks after a head change. -/
namespace Agend.Pipeline

/-- The head a change reports. -/
def PendingHeadChange.head : PendingHeadChange → String
  | .commitCreated head _ => head
  | .mainAdvanced head _ _ => head

def PendingHeadChange.patchId : PendingHeadChange → String
  | .commitCreated _ patch => patch
  | .mainAdvanced _ patch _ => patch

namespace PipelineState

variable {s : PipelineState}

/-- The task with the holder of the work stage at `target` again. -/
def returned (s : PipelineState) (target : Nat) (reason : String) : PipelineState :=
  let s' := s.forgetFrom target
  let s' := if s'.fanoutAtOrAfter target then s'.clearFanout else s'
  { s' with workProduct := none, pendingWorkReason := some reason, stageIndex := target,
            attempts := s'.attempts.modify target (· + 1) }

section returned

variable {t : Nat} {reason : String}

@[simp] theorem returned_taskId : (s.returned t reason).taskId = s.taskId := by
  unfold returned; simp only; split <;> rfl

@[simp] theorem returned_pendingWorkReason :
    (s.returned t reason).pendingWorkReason = some reason := rfl

@[simp] theorem returned_workflow : (s.returned t reason).workflow = s.workflow := by
  unfold returned; simp only; split <;> rfl

@[simp] theorem returned_stageIndex : (s.returned t reason).stageIndex = t := rfl

@[simp] theorem returned_status : (s.returned t reason).status = s.status := by
  unfold returned; simp only; split <;> rfl

@[simp] theorem returned_branch : (s.returned t reason).branch = s.branch := by
  unfold returned; simp only; split <;> rfl

@[simp] theorem returned_currentHead : (s.returned t reason).currentHead = s.currentHead := by
  unfold returned; simp only; split <;> rfl

@[simp] theorem returned_patchId : (s.returned t reason).patchId = s.patchId := by
  unfold returned; simp only; split <;> rfl

@[simp] theorem returned_changeId : (s.returned t reason).changeId = s.changeId := by
  unfold returned; simp only; split <;> rfl

@[simp] theorem returned_approvalReviewers : (s.returned t reason).approvalReviewers = [] := by
  unfold returned; simp only; split <;> rfl

@[simp] theorem returned_pendingPick : (s.returned t reason).pendingPick = none := by
  unfold returned; simp only; split <;> rfl

@[simp] theorem returned_attempts :
    (s.returned t reason).attempts = s.attempts.modify t (· + 1) := by
  unfold returned; simp only; split <;> rfl

@[simp] theorem returned_approvals : (s.returned t reason).approvals =
    s.approvals.filter fun a => s.recordedBefore t a.stageId := by
  unfold returned; simp only; split <;> rfl

@[simp] theorem returned_passedChecks : (s.returned t reason).passedChecks =
    s.passedChecks.filter fun c => s.recordedBefore t c.stageId := by
  unfold returned; simp only; split <;> rfl

@[simp] theorem returned_mergeCommit : (s.returned t reason).mergeCommit = s.mergeCommit := by
  unfold returned; simp only; split <;> rfl

@[simp] theorem returned_pendingHeadChanges :
    (s.returned t reason).pendingHeadChanges = s.pendingHeadChanges := by
  unfold returned; simp only; split <;> rfl

@[simp] theorem returned_notifiedTimeout :
    (s.returned t reason).notifiedTimeout = s.notifiedTimeout := by
  unfold returned; simp only; split <;> rfl

theorem fanoutAtOrAfter_iff {n : Nat} :
    s.fanoutAtOrAfter n = true ↔ ∃ j, n ≤ j ∧ s.workflow.At j (·.isKind .fanout) :=
  Workflow.any_drop_iff

theorem returned_fanout (t : Nat) (reason : String) :
    (s.returned t reason).fanoutChildTaskIds =
        (if s.fanoutAtOrAfter t then [] else s.fanoutChildTaskIds) ∧
      (s.returned t reason).selectedFanoutChild =
        if s.fanoutAtOrAfter t then none else (s.forgetFrom t).selectedFanoutChild := by
  unfold returned
  simp only [show (s.forgetFrom t).fanoutAtOrAfter t = s.fanoutAtOrAfter t from rfl]
  split <;> exact ⟨rfl, rfl⟩

end returned

theorem returnToWork_eq {t : Nat} {reason role text : String} {output : WorkOutput}
    {st : WorkflowStage} (hs : s.workflow.stages[t]? = some st)
    (hst : st.stage = .work role text output) :
    s.returnToWork t reason = .ok (s.returned t reason,
      [scheduleFor st (s.returned t reason).attempt,
        .returnToWork st.id (s.returned t reason).attempt role reason]) := by
  have hw : (if (s.forgetFrom t).fanoutAtOrAfter t then (s.forgetFrom t).clearFanout
      else s.forgetFrom t).workflow.stages[t]? = some st := by
    split <;> exact hs
  simp only [returnToWork, hw, hst]
  rfl

/-- A winner survives `forgetFrom` unless a pick at or after `t` made it. -/
theorem selected_forgetFrom (so : s.workflow.Sound) (h : s.Records) {t : Nat}
    (hw : s.workflow.At t (·.isKind .work)) (hn : s.fanoutAtOrAfter t = false) :
    (s.forgetFrom t).selectedFanoutChild = s.selectedFanoutChild := by
  have hd : (s.approvals.any fun a =>
      !s.recordedBefore t a.stageId && s.recordPicks a) = false := by
    simp only [List.any_eq_false, Bool.and_eq_true, Bool.not_eq_true', not_and]
    intro a ha hr hp
    obtain ⟨i, st, hs, hid, hk, -⟩ := h.stage_of_mem ha
    rw [recordPicks, ← hid, so.stagePosition_eq hs, Option.any_some, so.picks_iff] at hp
    obtain ⟨f, hf, rfl⟩ := hp
    rw [Bool.eq_false_iff, ← hid, ne_eq, recordedBefore_iff so.toShape hs] at hr
    obtain ⟨sf, hsf, hpf⟩ := hf
    have hff := WorkflowStage.isKind_fanout_of_isPickFanout hpf
    have : f ≠ t := by
      rintro rfl
      rw [Workflow.at_iff hsf] at hw
      cases WorkflowStage.isKind_unique hw hff
    have : f + 1 ≠ t := by
      intro he
      rw [← he, Workflow.at_iff hs] at hw
      cases WorkflowStage.isKind_unique hw hk
    rw [Bool.eq_false_iff, ne_eq, fanoutAtOrAfter_iff] at hn
    exact hn ⟨f, by omega, sf, hsf, hff⟩
  change (if (s.approvals.any fun a => !s.recordedBefore t a.stageId && s.recordPicks a) = true
    then none else s.selectedFanoutChild) = _
  rw [hd, if_neg (by simp)]

theorem Records.returned (h : s.Records) (t : Nat) (reason : String) :
    (s.returned t reason).Records := by
  have hf := h.forgetFrom t
  have notified : ∀ x ∈ s.notifiedTimeout, x.1 < s.workflow.stages.length ∧ 0 < x.2 ∧
      x.2 ≤ (s.attempts.modify t (· + 1)).getD x.1 0 := by
    intro x hx
    obtain ⟨h1, h2, h3⟩ := h.notified x hx
    exact ⟨h1, h2, h3.trans getD_le_getD_modify⟩
  unfold PipelineState.returned
  simp only
  split
  · exact { hf.clearFanout with
      attempts := by rw [List.length_modify]; exact h.attempts
      notified := notified }
  · exact { hf with
      attempts := by rw [List.length_modify]; exact h.attempts
      notified := notified }

/-- Going back to an earlier work stage leaves a live task there. -/
theorem Ready.live_returned (so : s.workflow.Sound) {i t : Nat} (h : s.Ready i) (ht : t < i)
    (hlen : t + 1 < s.workflow.stages.length) (hw : s.workflow.At t (·.isKind .work))
    (hr : s.status = .running) (hp : s.pendingHeadChanges = []) {reason : String} :
    (s.returned t reason).Live := by
  obtain ⟨st, hs, hk⟩ := hw
  have notHB : ∀ j ≤ t, ¬ s.workflow.At j (·.isHeadBound) := by
    rintro j hj ⟨sj, hsj, hb⟩
    have := so.workBefore j t ⟨sj, hsj, WorkflowStage.needsHead_of_isHeadBound hb⟩ ⟨st, hs, hk⟩
    omega
  have notCommand : ∀ j sj, j ≤ t → s.workflow.stages[j]? = some sj →
      sj.isKind .command = true → False := fun j sj hj hsj hc =>
    notHB j hj ⟨sj, hsj, WorkflowStage.isHeadBound_iff.mpr (Or.inl hc)⟩
  have sub : ∀ {a : ApprovalRecord}, a ∈ (s.returned t reason).approvals → a ∈ s.approvals := by
    intro a ha
    rw [returned_approvals] at ha
    exact List.mem_of_mem_filter ha
  have hready : (s.returned t reason).Ready t := by
    refine ⟨h.records.returned t reason, fun j sj hj hsj hc => ?_, fun j sj hj hsj ha => ?_,
      fun _ => ⟨?_, fun a ha => ?_⟩, fun hb => ?_, fun _ => ⟨t, le_rfl, st, by simpa using hs, hk⟩,
      fun f _ hlt _ hclear => ?_, fun f sf hf hlast hlt hsf ha => ?_⟩
    · rw [returned_workflow] at hsj
      exact (notCommand j sj hj.le hsj hc).elim
    · rw [returned_workflow] at hsj
      obtain ⟨a, hm, hid⟩ := h.approved j sj (by omega) hsj ha
      refine ⟨a, ?_, hid⟩
      rw [returned_approvals]
      exact List.mem_filter.mpr ⟨hm, by rw [hid]; exact (recordedBefore_iff so.toShape hsj).mpr hj⟩
    · rw [returned_passedChecks, List.filter_eq_nil_iff]
      intro c hc hcon
      obtain ⟨j, sj, hsj, hid, hk⟩ := (h.records.checks c hc).stage
      rw [← hid, recordedBefore_iff so.toShape hsj] at hcon
      exact notCommand j sj hcon.le hsj hk
    · rw [returned_approvals] at ha
      rw [recordedBefore, returned_workflow]
      exact (List.mem_filter.mp ha).2
    · rw [returned_workflow] at hb
      obtain ⟨j, hj, hb⟩ := hb
      rw [returned_branch]
      exact h.branched ⟨j, by omega, hb⟩
    · refine absurd ?_ (hclear t hlt le_rfl).2
      exact ⟨st, by simpa using hs, hk⟩
    · rw [returned_workflow] at hf hlast hsf
      have hn : s.fanoutAtOrAfter t = false := by
        rw [Bool.eq_false_iff, ne_eq, fanoutAtOrAfter_iff]
        rintro ⟨g, hg, hfan⟩
        exact hlast g (by omega) hfan
      obtain ⟨h1, h2⟩ := returned_fanout (s := s) t reason
      rw [h1, h2, hn, if_neg (by simp), if_neg (by simp),
        selected_forgetFrom so h.records ⟨st, hs, hk⟩ hn]
      obtain ⟨a, hm, hid⟩ := ha
      exact h.picked f sf hf hlast (by omega) hsf ⟨a, sub hm, hid⟩
  have same : ∀ {st' : WorkflowStage} {k : StageKind},
      (s.returned t reason).workflow.stages[t]? = some st' → st'.isKind k = true → k = .work := by
    intro st' k hs' hk'
    rw [returned_workflow] at hs'
    obtain rfl := Option.some.inj (hs'.symm.trans hs)
    exact WorkflowStage.isKind_unique hk' hk
  refine ⟨by simpa using hr, ⟨st, by simpa using hs⟩, hready, ?_, ?_, ?_, ?_, ?_, ?_, ?_, ?_⟩
  · intro st' hs' ha
    cases same hs' ha
  · rw [attempt, returned_attempts, returned_stageIndex,
      getD_modify_succ (by rw [h.records.attempts]; omega)]
    omega
  · rintro (hne | hne) <;> simp at hne
  · intro c hc
    simp at hc
  · rintro ⟨st', hs', hk'⟩
    cases same hs' hk'
  · intro _
    exact ⟨⟨st, by simpa using hs, hk⟩, by simpa using hlen⟩
  · intro hne
    simp [hp] at hne
  · intro st' c hs' hst
    cases same hs' (WorkflowStage.isKind_command_iff.mpr ⟨c, hst⟩)

/-- The first head-bound stage of the workflow. -/
def FirstBound (w : Workflow) (t : Nat) : Prop :=
  w.At t (·.isHeadBound) ∧ ∀ j < t, ¬ w.At j (·.isHeadBound)

/-- Entry may start again at the first head-bound stage. -/
theorem Ready.recheck (so : s.workflow.Sound) {i t : Nat} (h : s.Ready i) (hle : t ≤ i)
    (ht : FirstBound s.workflow t) : s.Ready t := by
  obtain ⟨hb, hfirst⟩ := ht
  refine ⟨h.records, fun j st hj => h.passed j st (by omega), fun j st hj => h.approved j st (by omega),
    fun hcon => absurd hb (hcon t le_rfl), fun ⟨j, hj, hw⟩ => h.branched ⟨j, by omega, hw⟩,
    fun _ => ?_, fun f hf hlt hor _ => ?_, fun f st hf hlast hlt => h.picked f st hf hlast (by omega)⟩
  · obtain ⟨st, hs, hk⟩ := hb
    obtain ⟨j, hj, sj, hsj, hw⟩ := so.earlierBranch t
      ⟨st, hs, WorkflowStage.needsHead_of_isHeadBound hk⟩
    exact ⟨j, hj.le, sj, hsj, WorkflowStage.isKind_work_of_isBranchWork hw⟩
  · -- The pick at `t` is head-bound, and no fanout or work stage follows it.
    have heq : f + 1 = t := by
      rcases hor with heq | hbf
      · exact heq
      · by_contra hne
        exact hfirst (f + 1) (by omega) hbf
    obtain ⟨sa, hsa, hka⟩ := so.pickApproval f hf
    have hba : sa.isBoundApproval = true := by
      rw [heq] at hsa
      rw [Workflow.at_iff hsa] at hb
      rcases WorkflowStage.isHeadBound_iff.mp hb with hc | hba
      · cases WorkflowStage.isKind_unique hka hc
      · exact hba
    have hwork : ∀ j, s.workflow.At j (·.isKind .work) → j < t := by
      obtain ⟨st, hs, hk⟩ := hb
      exact fun j => so.workBefore t j ⟨st, hs, WorkflowStage.needsHead_of_isHeadBound hk⟩
    refine h.offered f hf (by omega) (Or.inr (heq ▸ hb)) fun j h1 h2 => ⟨fun hfan => ?_, fun hw => ?_⟩
    · rcases Nat.lt_or_ge (f + 1) j with hlt' | hge
      · exact so.picksSafe f j hf ⟨sa, hsa, hba⟩ (fun k hk => hfirst k (by omega)) hlt' hfan
      · obtain rfl : j = f + 1 := by omega
        rw [Workflow.at_iff hsa] at hfan
        cases WorkflowStage.isKind_unique hka hfan
    · have := hwork j hw
      omega

/-- The states a new head leaves before the rechecks: everything bound to the old head is
dropped, or a clean rebase of the same patch carries the approvals along. -/
inductive NewHead (s : PipelineState) (change : PendingHeadChange) : PipelineState → Prop
  | fresh (hne : s.currentHead ≠ some change.head) :
      NewHead s change (s.recordNewHead change.head change.patchId)
  | kept {old head patch : String} (hc : change = .mainAdvanced head patch false)
      (ho : s.currentHead = some old) (hp : s.patchId = some patch)
      (hne : s.currentHead ≠ some head) : NewHead s change (s.rebased old patch head patch)

namespace NewHead

variable {change : PendingHeadChange} {s1 : PipelineState}

theorem frame (hn : NewHead s change s1) : Frame s s1 := by
  cases hn with
  | fresh => exact frame_recordNewHead
  | kept => exact frame_rebased

theorem branch (hn : NewHead s change s1) : s1.branch = s.branch := by cases hn <;> rfl

theorem approvalReviewers (hn : NewHead s change s1) : s1.approvalReviewers = [] := by
  cases hn <;> rfl

theorem pendingPick (hn : NewHead s change s1) : s1.pendingPick = none := by cases hn <;> rfl

theorem children (hn : NewHead s change s1) : s1.fanoutChildTaskIds = s.fanoutChildTaskIds := by
  cases hn <;> rfl

theorem records (hn : NewHead s change s1) (h : s.Records) : s1.Records := by
  cases hn with
  | fresh hne => exact h.recordNewHead hne
  | kept hc ho hp => exact h.rebased ho hp

theorem passedChecks (hn : NewHead s change s1) (h : s.Records) : s1.passedChecks = [] := by
  cases hn with
  | fresh hne => exact passedChecks_recordNewHead h hne
  | kept hc ho hp => rfl

theorem hasApproval_of (hn : NewHead s change s1) (h : s.Records) {id : String}
    (ha : s1.HasApproval id) : s.HasApproval id := by
  cases hn with
  | fresh hne =>
    obtain ⟨a, hm, hid⟩ := ha
    exact ⟨a, ((mem_approvals_recordNewHead h hne).mp hm).1, hid⟩
  | kept hc ho hp => exact (hasApproval_rebased h ho hp).mp ha

/-- An approval that is not bound to the head outlives a new head. -/
theorem hasApproval_unbound (hn : NewHead s change s1) (so : s.workflow.Sound) (h : s.Records)
    {i : Nat} {st : WorkflowStage} (hs : s.workflow.stages[i]? = some st)
    (hb : st.isBoundApproval = false) (ha : s.HasApproval st.id) : s1.HasApproval st.id := by
  cases hn with
  | fresh hne => exact (hasApproval_recordNewHead so.toShape h hne hs).mpr ⟨ha, hb⟩
  | kept hc ho hp => exact (hasApproval_rebased h ho hp).mpr ha

/-- A new head leaves everything before the first head-bound stage settled. -/
theorem ready (hn : NewHead s change s1) (so : s.workflow.Sound) {i : Nat} (h : s.Ready i)
    (hi : ∀ j < i, ¬ s.workflow.At j (·.isHeadBound)) : s1.Ready i := by
  have hw := hn.frame.workflow
  have bound : ∀ {j : Nat} {st : WorkflowStage}, j < i → s.workflow.stages[j]? = some st →
      st.isBoundApproval = false := by
    intro j st hj hs
    rw [Bool.eq_false_iff]
    exact fun hb => hi j hj ⟨st, hs, WorkflowStage.isHeadBound_iff.mpr (Or.inr hb)⟩
  refine ⟨hn.records h.records, fun j st hj hs hk => ?_, fun j st hj hs hk => ?_, fun hb => ?_,
    fun hb => ?_, fun hb => ?_, fun f hf hlt hor hclear => ?_, fun f st hf hlast hlt hs ha => ?_⟩
  · rw [hw] at hs
    exact absurd ⟨st, hs, WorkflowStage.isHeadBound_iff.mpr (Or.inl hk)⟩ (hi j hj)
  · rw [hw] at hs
    exact hn.hasApproval_unbound so h.records hs (bound hj hs) (h.approved j st hj hs hk)
  · rw [hw] at hb
    refine ⟨hn.passedChecks h.records, fun a hm => ?_⟩
    obtain ⟨b, hbm, hid⟩ := hn.hasApproval_of h.records ⟨a, hm, rfl⟩
    rw [recordedBefore, hw, ← hid]
    exact (h.ahead hb).2 b hbm
  · rw [hw] at hb
    rw [hn.branch]
    exact h.branched hb
  · rw [hn.branch] at hb
    rw [hw]
    exact h.sourced hb
  · rw [hw] at hf hor hclear
    rw [hn.children]
    exact h.offered f hf hlt hor hclear
  · rw [hw] at hf hlast hs
    obtain ⟨c, hc, hsel⟩ := h.picked f st hf hlast hlt hs (hn.hasApproval_of h.records ha)
    refine ⟨c, hn.children.trans hc, ?_⟩
    cases hn with
    | kept _ ho hp => exact (selected_rebased h.records ho hp).trans hsel
    | fresh hne =>
      rcases selected_recordNewHead change.head change.patchId so.toShape
        h.records with he | ⟨g, hg, hgb⟩
      · exact he.trans hsel
      · -- The dropped pick is at a head-bound approval, so it is not the one before `i`.
        exfalso
        have hgf : g ≤ f := by
          by_contra hcon
          obtain ⟨sg, hsg, hp⟩ := hg
          exact hlast g (by omega) ⟨sg, hsg, WorkflowStage.isKind_fanout_of_isPickFanout hp⟩
        have hbg : s.workflow.At (g + 1) (·.isHeadBound) := by
          obtain ⟨sg, hsg, hb⟩ := hgb
          exact ⟨sg, hsg, WorkflowStage.isHeadBound_iff.mpr (Or.inr hb)⟩
        rcases Nat.lt_or_ge (g + 1) i with hlt' | hge
        · exact hi (g + 1) hlt' hbg
        · obtain rfl : g = f := by omega
          rw [Workflow.at_iff hs] at hgb
          have := ((hasApproval_recordNewHead so.toShape h.records hne hs).mp ha).2
          rw [hgb] at this
          cases this

end NewHead

/-- What a head change does to a live task. -/
inductive HeadMove (s : PipelineState) (change : PendingHeadChange) :
    PipelineState → List PipelineAction → Prop
  | ignored : HeadMove s change s []
  /-- Work and submit before the first check only take note. -/
  | recorded {s1 : PipelineState} (hn : NewHead s change s1)
      (hk : s.workflow.At s.stageIndex (·.isKind .work) ∨
        s.workflow.At s.stageIndex (·.isKind .submit))
      (hb : ∀ j ≤ s.stageIndex, ¬ s.workflow.At j (·.isHeadBound)) : HeadMove s change s1 []
  | rechecked {s1 s' : PipelineState} {t : Nat} {A : List PipelineAction}
      (hn : NewHead s change s1) (ht : t ≤ s.stageIndex)
      (hb : ∀ j < t, ¬ s.workflow.At j (·.isHeadBound))
      (hk : s.workflow.At t (·.isHeadBound) ∨ t = s.stageIndex ∧
        (s.workflow.At t (·.isKind .approval) ∨ s.workflow.At t (·.isKind .fanout)))
      (hl : s1.landing t ≤ s.stageIndex) (he : Entry s1 t s' A) : HeadMove s change s' A
  | returned {s1 : PipelineState} {t : Nat} {st : WorkflowStage} {role text : String}
      {output : WorkOutput} {head patch : String} {conflict : Bool}
      (hc : change = .mainAdvanced head patch conflict)
      (hd : conflict = false ∧ NewHead s change s1 ∨ conflict = true ∧ s1 = s.clearPartial)
      (ht : t < s.stageIndex) (hs : s.workflow.stages[t]? = some st)
      (hst : st.stage = .work role text output)
      (hlast : ∀ j, t < j → j < s.stageIndex → ¬ s.workflow.At j (·.isKind .work))
      (hcur : ∀ st, s.workflow.stages[s.stageIndex]? = some st →
        st.isKind .work = false ∧ st.isKind .submit = false) :
      HeadMove s change (s1.returned t (conflictReason conflict))
        [scheduleFor st (s1.returned t (conflictReason conflict)).attempt,
          .returnToWork st.id (s1.returned t (conflictReason conflict)).attempt role
            (conflictReason conflict)]

theorem Records.approvedPatch_eq (h : s.Records) {old : String} (ho : s.currentHead = some old) :
    s.approvedPatch old = s.patchId := by
  obtain ⟨p, hp⟩ := Option.isSome_iff_exists.mp (h.patch ▸ Option.isSome_iff_exists.mpr ⟨old, ho⟩)
  unfold approvedPatch
  cases hf : s.approvals.find? fun a => a.head = some old with
  | none => simp
  | some a =>
    have hh := List.find?_some hf
    simp only [decide_eq_true_eq] at hh
    cases h.approvals a (List.mem_of_find?_eq_some hf) with
    | bound _ _ _ _ _ _ hpa => simp [hpa, hp]
    | unbound _ _ _ _ hn => rw [hn] at hh; cases hh

/-- Every record covers the current head, so only a partial approval is lost. -/
theorem Records.invalidateHeadBound_eq (h : s.Records) : s.invalidateHeadBound = s.clearPartial := by
  have keep : ∀ a ∈ s.approvals,
      (decide (a.head = none) || decide (a.head = s.currentHead)) = true := by
    intro a ha
    cases h.approvals a ha with
    | bound _ _ _ _ hh => simp [hh]
    | unbound _ _ _ _ hh => simp [hh]
  have hd : (s.approvals.any fun a =>
      !(decide (a.head = none) || decide (a.head = s.currentHead)) && s.recordPicks a) = false := by
    simp only [List.any_eq_false, Bool.and_eq_true, Bool.not_eq_true', not_and]
    intro a ha hcon
    rw [keep a ha] at hcon
    cases hcon
  have hc : (s.passedChecks.filter fun c => c.head = s.currentHead) = s.passedChecks :=
    List.filter_eq_self.mpr fun c hm => by simp [(h.checks c hm).head]
  simp only [PipelineState.invalidateHeadBound, PipelineState.dropApprovals,
    PipelineState.clearPartial, hd, List.filter_eq_self.mpr keep, hc, Bool.false_eq_true, if_false]

/-- A new head of a live task is rechecked from the first head-bound stage, or noted. -/
theorem Live.recheck (so : s.workflow.Sound) (h : s.Live) {change : PendingHeadChange}
    {s1 : PipelineState} (hn : NewHead s change s1) :
    ∃ s' A, s1.recheckForNewHead = .ok (s', A) ∧ HeadMove s change s' A := by
  obtain ⟨st, hs⟩ := h.stage
  have hlt : s.stageIndex < s.workflow.stages.length := (List.getElem?_eq_some_iff.mp hs).1
  have hw := hn.frame.workflow
  have hi := hn.frame.stageIndex
  have hs1 : s1.workflow.stages[s1.stageIndex]? = some st := by rw [hw, hi, hs]
  -- The current stage still waits for its result, so entry stops there at the latest.
  have land : ∀ t ≤ s.stageIndex, s1.landing t ≤ s.stageIndex := by
    intro t ht
    by_contra hcon
    have hsat := satisfied_of_lt_landing ht (not_le.mp hcon)
    rw [hw, Workflow.at_iff hs] at hsat
    have hk := approvalForStage_isKind hsat
    obtain ⟨approver, count, bound, hst⟩ := WorkflowStage.isKind_approval_iff.mp hk
    have ha := ((hn.records h.ready.records).approvalForStage_iff (hw ▸ so.toShape) hs1 hst).mp hsat
    exact h.waiting st hs hk (hn.hasApproval_of h.ready.records ha)
  unfold recheckForNewHead
  cases ht : s1.recheckTarget s1.stageIndex with
  | some t =>
    rw [recheckTarget_eq_some_iff (hw ▸ so.toShape) (by rw [hw, hi]; exact hlt), hw, hi] at ht
    obtain ⟨hle, hfirst⟩ := ht
    have hr := hn.ready so (h.ready.recheck so hle hfirst) hfirst.2
    obtain ⟨s', A, he⟩ := hr.exists_enter (hw ▸ so)
    exact ⟨s', A, he, .rechecked hn hle hfirst.2 (Or.inl hfirst.1) (land t hle)
      (enterStage_eq_ok_iff.mp he)⟩
  | none =>
    rw [recheckTarget_eq_none_iff (hw ▸ so.toShape) (by rw [hw, hi]; exact hlt), hw, hi] at ht
    have hr := hn.ready so h.ready fun j hj => ht j hj.le
    have hrun : s1.status = .running := hn.frame.status.trans h.running
    unfold restartIfCollected
    simp only [atKind_eq hs1]
    by_cases hk : st.isKind .approval = true ∨ st.isKind .fanout = true
    · have hm : s1.mergeInFlight = false := by
        rw [Bool.eq_false_iff, ne_eq, mergeInFlight_iff hrun hs1, ← WorkflowStage.isKind_merge_iff]
        rintro hm
        rcases hk with hk | hk <;> cases WorkflowStage.isKind_unique hk hm
      obtain ⟨s', A, he⟩ := hr.exists_enter (hw ▸ so)
      rw [if_pos (by simpa [hm] using hk), hi]
      exact ⟨s', A, he, .rechecked hn le_rfl (fun j hj => ht j hj.le)
        (Or.inr ⟨rfl, hk.imp (fun hk => ⟨st, hs, hk⟩) fun hk => ⟨st, hs, hk⟩⟩)
        (land _ le_rfl) (enterStage_eq_ok_iff.mp he)⟩
    · rw [if_neg (by simp [not_or.mp hk])]
      refine ⟨s1, [], rfl, .recorded hn ?_ ht⟩
      cases hst : st.stage with
      | work => exact Or.inl ⟨st, hs, by simp [WorkflowStage.isKind, hst, Stage.kind]⟩
      | submit => exact Or.inr ⟨st, hs, by simp [WorkflowStage.isKind, hst, Stage.kind]⟩
      | command =>
        refine absurd ⟨st, hs, ?_⟩ (ht _ le_rfl)
        exact WorkflowStage.isHeadBound_iff.mpr
          (Or.inl (by simp [WorkflowStage.isKind, hst, Stage.kind]))
      | approval | fanout => simp [WorkflowStage.isKind, hst, Stage.kind] at hk
      | merge =>
        obtain ⟨j, hj, sj, hsj, hc⟩ := so.mergeCommand _ ⟨st, hs, WorkflowStage.isKind_merge_iff.mpr hst⟩
        exact absurd ⟨sj, hsj, WorkflowStage.isHeadBound_iff.mpr (Or.inl hc)⟩ (ht j hj.le)

theorem previousWork_eq_some_iff {before t : Nat} (hb : before ≤ s.workflow.stages.length) :
    s.previousWork before = some t ↔ t < before ∧ s.workflow.At t (·.isKind .work) ∧
      ∀ j, t < j → j < before → ¬ s.workflow.At j (·.isKind .work) := by
  rw [previousWork, if_pos hb, lastIndexBefore_eq_some_iff]

theorem exists_previousWork {before : Nat} (hb : before ≤ s.workflow.stages.length)
    (h : ∃ j < before, s.workflow.At j (·.isKind .work)) :
    ∃ t, s.previousWork before = some t := by
  rw [previousWork, if_pos hb]
  cases hl : lastIndexBefore s.workflow.stages before (·.isKind .work) with
  | some t => exact ⟨t, rfl⟩
  | none =>
    obtain ⟨j, hj, hw⟩ := h
    exact absurd hw (lastIndexBefore_eq_none_iff.mp hl j hj)

/-- Every head change of a live task is accepted. -/
theorem Live.applyHeadChange (so : s.workflow.Sound) (h : s.Live) (change : PendingHeadChange) :
    ∃ s' A, s.applyHeadChange change = .ok (s', A) ∧ HeadMove s change s' A := by
  obtain ⟨st, hs⟩ := h.stage
  have hlt : s.stageIndex < s.workflow.stages.length := (List.getElem?_eq_some_iff.mp hs).1
  have hcur : s.currentStage = some st := hs
  cases change with
  | commitCreated head patch =>
    simp only [PipelineState.applyHeadChange, h.running, ne_eq, not_true_eq_false, if_false]
    split_ifs with hh
    · exact ⟨s, [], rfl, .ignored⟩
    · have hn : NewHead s (.commitCreated head patch) (s.recordNewHead head patch) := .fresh hh
      exact h.recheck so hn
  | mainAdvanced head patch conflict =>
    simp only [PipelineState.applyHeadChange, h.running, ne_eq, not_true_eq_false, if_false,
      PipelineState.mainAdvanced, hcur]
    by_cases hb : s.branch = none
    · rw [if_pos hb]
      exact ⟨s, [], rfl, .ignored⟩
    rw [if_neg hb]
    by_cases hsame : (!conflict && decide (s.currentHead = some head)) = true
    · rw [if_pos hsame]
      exact ⟨s, [], rfl, .ignored⟩
    rw [if_neg hsame]
    have hne : conflict = false → s.currentHead ≠ some head := by
      rintro rfl hcon
      simp [hcon] at hsame
    by_cases hk : (st.isKind .work || st.isKind .submit) = true
    · rw [if_pos hk]
      cases conflict with
      | true => exact ⟨s, [], rfl, .ignored⟩
      | false =>
        have hn : NewHead s (.mainAdvanced head patch false) (s.recordNewHead head patch) :=
          .fresh (hne rfl)
        exact h.recheck so hn
    rw [if_neg hk]
    simp only [Bool.or_eq_true, not_or] at hk
    have hcur : ∀ st', s.workflow.stages[s.stageIndex]? = some st' →
        st'.isKind .work = false ∧ st'.isKind .submit = false := by
      intro st' hs'
      obtain rfl := Option.some.inj (hs.symm.trans hs')
      exact ⟨Bool.eq_false_iff.mpr hk.1, Bool.eq_false_iff.mpr hk.2⟩
    have hbranch : s.branch.isSome = true := Option.isSome_iff_ne_none.mpr hb
    obtain ⟨old, ho⟩ := Option.isSome_iff_exists.mp (h.ready.records.head hbranch)
    obtain ⟨p, hp⟩ := Option.isSome_iff_exists.mp
      (h.ready.records.patch ▸ h.ready.records.head hbranch)
    simp only [ho, h.ready.records.approvedPatch_eq ho, hp]
    -- A branch came from an earlier work stage, which takes the task back.
    obtain ⟨t, ht⟩ : ∃ t, s.previousWork s.stageIndex = some t := by
      refine exists_previousWork hlt.le ?_
      obtain ⟨j, hj, hw⟩ := h.ready.sourced hbranch
      refine ⟨j, lt_of_le_of_ne hj ?_, hw⟩
      rintro rfl
      rw [Workflow.at_iff hs] at hw
      exact hk.1 hw
    obtain ⟨hti, ⟨sw, hsw, hkw⟩, hlast⟩ := (previousWork_eq_some_iff hlt.le).mp ht
    obtain ⟨role, text, output, hst⟩ := WorkflowStage.isKind_work_iff.mp hkw
    cases hr : approvalAfterRebase ⟨conflict, some head, p,
        if conflict then none else some patch⟩ with
    | keep newHead =>
      obtain ⟨rfl, rfl, rfl⟩ := (approvalAfterRebase_eq_keep_iff _ _ _ _ _).mp hr
      have := h.recheck so (.kept rfl ho hp (hne rfl))
      simpa only [rebased, h.running, ho, hp] using this
    | returnToWork =>
      have previous : ∀ s1 : PipelineState, s1.workflow = s.workflow →
          s1.previousWork s.stageIndex = some t := by
        intro s1 hw
        rw [previousWork, hw]
        exact ht
      have back : ∀ s1 : PipelineState, s1.workflow = s.workflow →
          s1.returnToWork t (conflictReason conflict) =
          .ok (s1.returned t (conflictReason conflict),
            [scheduleFor sw (s1.returned t (conflictReason conflict)).attempt,
              .returnToWork sw.id (s1.returned t (conflictReason conflict)).attempt role
                (conflictReason conflict)]) := by
        intro s1 hw
        exact returnToWork_eq (by rw [hw, hsw]) hst
      cases conflict with
      | true =>
        simp only [if_true, h.ready.records.invalidateHeadBound_eq, previous s.clearPartial rfl]
        exact ⟨_, _, back s.clearPartial rfl, .returned rfl (Or.inr ⟨rfl, rfl⟩) hti hsw hst hlast
          hcur⟩
      | false =>
        simp only [Bool.false_eq_true, if_false, previous (s.recordNewHead head patch) rfl]
        exact ⟨_, _, back (s.recordNewHead head patch) rfl, .returned rfl
          (Or.inl ⟨rfl, .fresh (hne rfl)⟩) hti hsw hst hlast hcur⟩

/-- Up to the current stage, entry may start at the first head-bound stage or right here. -/
theorem Ready.exists_first (so : s.workflow.Sound) {i : Nat} (h : s.Ready i)
    (hi : i < s.workflow.stages.length) : ∃ m ≤ i, s.Ready m ∧
      (∀ j < m, ¬ s.workflow.At j (·.isHeadBound)) ∧ (m = i ∨ s.workflow.At m (·.isHeadBound)) := by
  cases ht : s.recheckTarget i with
  | some m =>
    obtain ⟨hle, hfirst⟩ := (recheckTarget_eq_some_iff so.toShape hi).mp ht
    exact ⟨m, hle, h.recheck so hle hfirst, hfirst.2, Or.inr hfirst.1⟩
  | none =>
    rw [recheckTarget_eq_none_iff so.toShape hi] at ht
    exact ⟨i, le_rfl, h, fun j hj => ht j hj.le, Or.inl rfl⟩

/-- A head change keeps the invariant. -/
theorem HeadMove.inv (so : s.workflow.Sound) (h : s.Live) (hp : s.pendingHeadChanges = [])
    {change : PendingHeadChange} {s' : PipelineState} {A : List PipelineAction}
    (hm : HeadMove s change s' A) : s'.Inv ∧ s'.pendingHeadChanges = [] := by
  obtain ⟨st, hs⟩ := h.stage
  have hlt : s.stageIndex < s.workflow.stages.length := (List.getElem?_eq_some_iff.mp hs).1
  cases hm with
  | ignored => exact ⟨.live h, hp⟩
  | recorded hn hk hb =>
    have hfr := hn.frame
    have kind : ∀ {k : StageKind}, s'.workflow.At s'.stageIndex (·.isKind k) →
        k = .work ∨ k = .submit := by
      rintro k ⟨st', hs', hk'⟩
      rw [hfr.workflow, hfr.stageIndex] at hs'
      exact hk.imp (fun hk => WorkflowStage.isKind_unique hk' ((Workflow.at_iff hs').mp hk))
        fun hk => WorkflowStage.isKind_unique hk' ((Workflow.at_iff hs').mp hk)
    refine ⟨.live ⟨hfr.status.trans h.running, ⟨st, by rw [hfr.workflow, hfr.stageIndex, hs]⟩,
      ?_, ?_, ?_, ?_, ?_, ?_, ?_, ?_, ?_⟩, hfr.pendingHeadChanges.trans hp⟩
    · rw [hfr.stageIndex]
      exact hn.ready so h.ready fun j hj => hb j hj.le
    · intro st' hs' ha
      rcases kind ⟨st', hs', ha⟩ with he | he <;> cases he
    · rw [attempt, hfr.attempts, hfr.stageIndex]
      exact h.attempt
    · rintro (hne | hne)
      · exact absurd hn.approvalReviewers hne
      · exact absurd hn.pendingPick hne
    · intro c hc
      rw [hn.pendingPick] at hc
      cases hc
    · intro hf
      rcases kind hf with he | he <;> cases he
    · rw [hfr.pendingWorkReason, hfr.workflow, hfr.stageIndex]
      exact h.reason
    · intro hne
      exact absurd (hfr.pendingHeadChanges.trans hp) hne
    · intro st' c hs' hst
      rcases kind ⟨st', hs', WorkflowStage.isKind_command_iff.mpr ⟨c, hst⟩⟩ with he | he <;> cases he
  | @rechecked s1 _ t _ hn ht hb hk hl he =>
    have hfr := hn.frame
    have hr : s.Ready t := by
      rcases hk with hbt | ⟨rfl, -⟩
      · exact h.ready.recheck so ht ⟨hbt, hb⟩
      · exact h.ready
    refine ⟨(hn.ready so hr hb).inv_of_entry (hfr.workflow ▸ so) (hfr.status.trans h.running)
      (hfr.pendingHeadChanges.trans hp) (by rw [hfr.workflow]; omega) ?_ he,
      he.pendingHeadChanges.trans (hfr.pendingHeadChanges.trans hp)⟩
    rw [hfr.workflow]
    omega
  | @returned s1 t sw role text output head patch conflict hc hd ht hsw hst =>
    have hw : s.workflow.At t (·.isKind .work) :=
      ⟨sw, hsw, WorkflowStage.isKind_work_iff.mpr ⟨_, _, _, hst⟩⟩
    have live : ∀ {m : Nat}, t < m → s1.Ready m → Frame s s1 →
        (s1.returned t (conflictReason conflict)).Inv ∧
          (s1.returned t (conflictReason conflict)).pendingHeadChanges = [] := by
      intro m htm hr hfr
      refine ⟨.live (hr.live_returned (hfr.workflow ▸ so) htm (by rw [hfr.workflow]; omega)
        (hfr.workflow ▸ hw) (hfr.status.trans h.running) (hfr.pendingHeadChanges.trans hp)), ?_⟩
      rw [returned_pendingHeadChanges, hfr.pendingHeadChanges, hp]
    rcases hd with ⟨-, hn⟩ | ⟨-, rfl⟩
    · obtain ⟨m, hm, hr, hfirst, hor⟩ := h.ready.exists_first so hlt
      refine live ?_ (hn.ready so hr hfirst) hn.frame
      rcases hor with rfl | ⟨sm, hsm, hbm⟩
      · exact ht
      · exact so.workBefore m t ⟨sm, hsm, WorkflowStage.needsHead_of_isHeadBound hbm⟩ hw
    · exact live ht { h.ready with records := h.ready.records.clearPartial } (by constructor <;> rfl)

end PipelineState

end Agend.Pipeline
