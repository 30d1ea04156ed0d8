import Agend.Pipeline.Records
import Agend.Pipeline.Sound

/-! When stage entry from an index is safe, and what entry makes of it. -/
namespace Agend.Pipeline.PipelineState

/-- Every stage before `i` is settled for the current head, and what lies ahead is open. -/
structure Ready (s : PipelineState) (i : Nat) : Prop where
  records : s.Records
  passed : ∀ (j : Nat) (st : WorkflowStage), j < i → s.workflow.stages[j]? = some st →
    st.isKind .command = true → s.HasCheck st.id
  approved : ∀ (j : Nat) (st : WorkflowStage), j < i → s.workflow.stages[j]? = some st →
    st.isKind .approval = true → s.HasApproval st.id
  ahead : (∀ j ≤ i, ¬ s.workflow.At j (·.isHeadBound)) →
    s.passedChecks = [] ∧ ∀ a ∈ s.approvals, s.recordedBefore i a.stageId = true
  branched : (∃ j < i, s.workflow.At j (·.isBranchWork)) → s.branch.isSome = true
  sourced : s.branch.isSome = true → ∃ j ≤ i, s.workflow.At j (·.isKind .work)
  /-- The children of the last fanout before `i`, where a pick may be asked again. -/
  offered : ∀ f, s.workflow.At f (·.isPickFanout) → f < i →
    (f + 1 = i ∨ s.workflow.At (f + 1) (·.isHeadBound)) →
    (∀ j, f < j → j ≤ i → ¬ s.workflow.At j (·.isKind .fanout) ∧
      ¬ s.workflow.At j (·.isKind .work)) → s.fanoutChildTaskIds ≠ []
  picked : ∀ (f : Nat) (st : WorkflowStage), s.workflow.At f (·.isPickFanout) →
    (∀ g, f < g → ¬ s.workflow.At g (·.isKind .fanout)) → f < i →
    s.workflow.stages[f + 1]? = some st → s.HasApproval st.id →
    ∃ c, s.fanoutChildTaskIds = [c] ∧ s.selectedFanoutChild = some c

/-- A running task between two events. -/
structure Live (s : PipelineState) : Prop where
  running : s.status = .running
  stage : ∃ st, s.workflow.stages[s.stageIndex]? = some st
  ready : s.Ready s.stageIndex
  waiting : ∀ st, s.workflow.stages[s.stageIndex]? = some st → st.isKind .approval = true →
    ¬ s.HasApproval st.id
  attempt : 0 < s.attempt
  collecting : s.approvalReviewers ≠ [] ∨ s.pendingPick ≠ none →
    ∃ st approver count bound, s.workflow.stages[s.stageIndex]? = some st ∧
      st.stage = .approval approver count bound ∧ s.approvalReviewers.length < count
  pick : ∀ c ∈ s.pendingPick, c ∈ s.fanoutChildTaskIds ∧ s.workflow.picks s.stageIndex = true
  fanout : s.workflow.At s.stageIndex (·.isKind .fanout) → s.fanoutChildTaskIds = [] ∧
    s.selectedFanoutChild = none ∧ ∀ a ∈ s.approvals, s.recordedBefore s.stageIndex a.stageId = true
  reason : s.pendingWorkReason ≠ none → s.workflow.At s.stageIndex (·.isKind .work) ∧
    s.stageIndex + 1 < s.workflow.stages.length
  pending : s.pendingHeadChanges ≠ [] → s.workflow.At s.stageIndex (·.isKind .merge)
  expands : ∀ (st : WorkflowStage) (c : String), s.workflow.stages[s.stageIndex]? = some st →
    st.stage = .command c → ∃ text, expandCommandPlaceholders c s.commandContext = .ok text

/-- A done task. -/
structure Finished (s : PipelineState) : Prop where
  done : s.status = .done
  ready : s.Ready s.workflow.stages.length
  index : s.stageIndex ≤ s.workflow.stages.length
  pending : s.pendingHeadChanges = []
  reason : s.pendingWorkReason = none
  merged : (∃ j, s.workflow.At j (·.isKind .merge)) → s.mergeCommit.isSome = true

/-- A failed or cancelled task. -/
structure Stopped (s : PipelineState) : Prop where
  status : s.status = .failed ∨ s.status = .cancelled
  records : s.Records
  index : s.stageIndex < s.workflow.stages.length
  pending : s.pendingHeadChanges = []
  reason : s.pendingWorkReason ≠ none → s.workflow.At s.stageIndex (·.isKind .work)

/-- What holds of every reachable state. -/
inductive Inv (s : PipelineState) : Prop
  | pending (h : s = .unchecked s.taskId s.workflow)
  | live (h : s.Live)
  | finished (h : s.Finished)
  | stopped (h : s.Stopped)

variable {s : PipelineState}

namespace Ready

variable {i : Nat}

/-- Before the first head-bound stage no record depends on the head. -/
theorem unbound (so : s.workflow.Sound) (h : s.Ready i)
    (hb : ∀ j ≤ i, ¬ s.workflow.At j (·.isHeadBound)) : ∀ a ∈ s.approvals, a.head = none := by
  intro a ha
  obtain ⟨j, st, hs, hid, -, hbound⟩ := h.records.stage_of_mem ha
  have hj := (h.ahead hb).2 a ha
  rw [← hid, recordedBefore_iff so.toShape hs] at hj
  by_contra hne
  exact hb j hj.le ⟨st, hs, WorkflowStage.isHeadBound_iff.mpr (Or.inr (hbound.mpr hne))⟩

/-- A stage that needs a head has one. -/
theorem head_isSome (so : s.workflow.Sound) (h : s.Ready i) (hn : s.workflow.At i (·.needsHead)) :
    s.branch.isSome = true ∧ s.currentHead.isSome = true :=
  have hb := h.branched (so.earlierBranch i hn)
  ⟨hb, h.records.head hb⟩

/-- The merge gate is open whenever the merge stage is entered. -/
theorem gate_allowed (so : s.workflow.Sound) (h : s.Ready i)
    (hm : s.workflow.At i (·.isKind .merge)) : (s.mergeGate i).allowed = true := by
  obtain ⟨head, hh⟩ := Option.isSome_iff_exists.mp (h.head_isSome so (by
    obtain ⟨st, hs, hk⟩ := hm
    exact ⟨st, hs, WorkflowStage.needsHead_iff.mpr (Or.inl hk)⟩)).2
  have mem : ∀ {j : Nat} {st : WorkflowStage} {f : GateFact}, j < i →
      s.workflow.stages[j]? = some st → s.gateFact st = some f →
      f ∈ (s.workflow.stages.take i).filterMap s.gateFact := by
    intro j st f hj hs hf
    refine List.mem_filterMap.mpr ⟨st, List.mem_of_getElem? (i := j) ?_, hf⟩
    rw [List.getElem?_take, if_pos hj, hs]
  refine (evaluate_allowed_iff _ _ _).mpr ⟨head, hh, ?_, ?_, ?_⟩
  · obtain ⟨j, hj, st, hs, hk⟩ := so.mergeCommand i hm
    obtain ⟨c, hst⟩ := WorkflowStage.isKind_command_iff.mp hk
    exact ⟨_, mem hj hs (by rw [gateFact, hst]), rfl⟩
  · refine (so.mergeReviewed i hm).imp_right ?_
    rintro ⟨j, hj, st, hs, hb⟩
    obtain ⟨approver, count, hst⟩ := WorkflowStage.isBoundApproval_iff.mp hb
    exact ⟨_, mem hj hs (by rw [gateFact, hst]), rfl⟩
  · intro f hf
    obtain ⟨st, hst, hf⟩ := List.mem_filterMap.mp hf
    obtain ⟨j, hj⟩ := List.getElem?_of_mem hst
    rw [List.getElem?_take] at hj
    split_ifs at hj with hlt
    unfold gateFact at hf
    split at hf
    · rename_i c hk
      cases hf
      obtain ⟨c, hc, hid⟩ := h.passed j st hlt hj (WorkflowStage.isKind_command_iff.mpr ⟨_, hk⟩)
      have hmem : head ∈ s.passedHeads st.id := List.mem_filterMap.mpr
        ⟨c, List.mem_filter.mpr ⟨hc, by simpa using hid⟩, (h.records.checks c hc).head.trans hh⟩
      rw [factBlocker, if_pos (List.contains_iff_mem.mpr hmem)]
    · rename_i approver count bound hk
      cases hf
      have ha := h.approved j st hlt hj (WorkflowStage.isKind_approval_iff.mpr ⟨_, _, _, hk⟩)
      have hsat := (h.records.approvalForStage_iff so.toShape hj hk).mpr ha
      simp only [approvalForStage, hk, hh] at hsat
      simp only [factBlocker, hsat, if_true]
    · cases hf

/-- The stages entry skips are approvals with a record. -/
theorem skipped (so : s.workflow.Sound) (h : s.Ready i) {j : Nat} (h1 : i ≤ j)
    (h2 : j < s.landing i) {st : WorkflowStage} (hs : s.workflow.stages[j]? = some st) :
    st.isKind .approval = true ∧ s.HasApproval st.id := by
  have hsat := satisfied_of_lt_landing h1 h2
  rw [Workflow.at_iff hs] at hsat
  have hk := approvalForStage_isKind hsat
  obtain ⟨approver, count, bound, hst⟩ := WorkflowStage.isKind_approval_iff.mp hk
  exact ⟨hk, (h.records.approvalForStage_iff so.toShape hs hst).mp hsat⟩

/-- Skipping satisfied approvals keeps everything settled. -/
theorem landed (so : s.workflow.Sound) (h : s.Ready i) : s.Ready (s.landing i) := by
  have hle := le_landing (s := s) i
  have kind : ∀ {j : Nat} {k : StageKind}, i ≤ j → j < s.landing i →
      s.workflow.At j (·.isKind k) → k = .approval := by
    rintro j k h1 h2 ⟨st, hs, hk⟩
    exact WorkflowStage.isKind_unique hk (h.skipped so h1 h2 hs).1
  have before : ∀ {j : Nat} {k : StageKind}, k ≠ .approval → j < s.landing i →
      s.workflow.At j (·.isKind k) → j < i := by
    intro j k hk hj ha
    by_contra hcon
    exact hk (kind (by omega) hj ha)
  have pickBefore : ∀ {f : Nat}, s.workflow.At f (·.isPickFanout) → f < s.landing i → f < i := by
    rintro f ⟨st, hs, hp⟩ hf
    exact before (k := .fanout) (by simp) hf
      ⟨st, hs, WorkflowStage.isKind_fanout_of_isPickFanout hp⟩
  refine ⟨h.records, fun j st hj hs hk => ?_, fun j st hj hs hk => ?_, fun hb => ?_, ?_,
    fun hb => ?_, ?_, ?_⟩
  · exact h.passed j st (before (k := .command) (by simp) hj ⟨st, hs, hk⟩) hs hk
  · rcases Nat.lt_or_ge j i with hlt | hge
    · exact h.approved j st hlt hs hk
    · exact (h.skipped so hge hj hs).2
  · obtain ⟨hc, ha⟩ := h.ahead fun j hj => hb j (hj.trans hle)
    refine ⟨hc, fun a hm => ?_⟩
    obtain ⟨k, st, hs, hid, -⟩ := h.records.stage_of_mem hm
    have hk := ha a hm
    rw [← hid, recordedBefore_iff so.toShape hs] at hk ⊢
    omega
  · rintro ⟨j, hj, st, hs, hb⟩
    exact h.branched ⟨j, before (k := .work) (by simp) hj
      ⟨st, hs, WorkflowStage.isKind_work_of_isBranchWork hb⟩, st, hs, hb⟩
  · obtain ⟨j, hj, hw⟩ := h.sourced hb
    exact ⟨j, hj.trans hle, hw⟩
  · intro f hf hlt hor hclear
    have hfi := pickBefore hf hlt
    refine h.offered f hf hfi ?_ fun j h1 h2 => hclear j h1 (by omega)
    rcases hor with heq | hb
    · exact Or.inl (by omega)
    · exact Or.inr hb
  · exact fun f st hf hlast hlt => h.picked f st hf hlast (pickBefore hf hlt)

/-- Opening the stage at `i` for a new attempt. -/
theorem entered (so : s.workflow.Sound) (h : s.Ready i) {st : WorkflowStage}
    (hs : s.workflow.stages[i]? = some st) : (s.entered i st).Ready i := by
  have hasApproval : ∀ {j : Nat} {sj : WorkflowStage}, s.workflow.stages[j]? = some sj →
      s.HasApproval sj.id → j < i → (s.entered i st).HasApproval sj.id := by
    rintro j sj hj ⟨a, ha, hid⟩ hlt
    refine ⟨a, ?_, hid⟩
    rw [entered_approvals]
    split_ifs
    · exact List.mem_filter.mpr ⟨ha, by rw [hid]; exact (recordedBefore_iff so.toShape hj).mpr hlt⟩
    · exact ha
  have sub : ∀ {a : ApprovalRecord}, a ∈ (s.entered i st).approvals → a ∈ s.approvals := by
    intro a ha
    rw [entered_approvals] at ha
    split_ifs at ha
    · exact List.mem_of_mem_filter ha
    · exact ha
  refine ⟨h.records.entered st, fun j sj hj hsj hk => ?_, fun j sj hj hsj hk => ?_, fun hb => ?_,
    fun hb => ?_, fun hb => ?_, fun f hf hlt hor hclear => ?_,
    fun f sf hf hlast hlt hsf ha => ?_⟩
  · rw [entered_workflow] at hsj
    obtain ⟨c, hc, hid⟩ := h.passed j sj hj hsj hk
    exact ⟨c, by simpa using hc, hid⟩
  · rw [entered_workflow] at hsj
    exact hasApproval hsj (h.approved j sj hj hsj hk) hj
  · rw [entered_workflow] at hb
    obtain ⟨hc, ha⟩ := h.ahead hb
    refine ⟨by simpa using hc, fun a hm => ?_⟩
    have := ha a (sub hm)
    simpa [recordedBefore] using this
  · rw [entered_workflow] at hb
    simpa using h.branched hb
  · rw [entered_branch] at hb
    simpa using h.sourced hb
  · rw [entered_workflow] at hf hor hclear
    have hnf : st.isKind .fanout = false := by
      rw [Bool.eq_false_iff]
      exact fun hk => (hclear i hlt le_rfl).1 ⟨st, hs, hk⟩
    rw [entered_fanoutChildTaskIds, hnf]
    exact h.offered f hf hlt hor hclear
  · rw [entered_workflow] at hf hlast hsf
    have hnf : st.isKind .fanout = false := by
      rw [Bool.eq_false_iff]
      exact fun hk => hlast i hlt ⟨st, hs, hk⟩
    rw [entered_fanoutChildTaskIds, entered_selectedFanoutChild, hnf]
    have ha' : s.HasApproval sf.id := by
      obtain ⟨a, hm, hid⟩ := ha
      exact ⟨a, sub hm, hid⟩
    exact h.picked f sf hf hlast hlt hsf ha'

theorem live_of_asked (so : s.workflow.Sound) (h : s.Ready i) (hr : s.status = .running)
    (hp : s.pendingHeadChanges = []) {st : WorkflowStage} {action : PipelineAction}
    (hs : s.workflow.stages[s.landing i]? = some st)
    (ha : (s.entered (s.landing i) st).requestOf (s.landing i) st
      (s.entered (s.landing i) st).attempt = some action) :
    (s.entered (s.landing i) st).Live := by
  have hlt : s.landing i < s.workflow.stages.length := (List.getElem?_eq_some_iff.mp hs).1
  have same : ∀ {st'}, (s.entered (s.landing i) st).workflow.stages[s.landing i]? = some st' →
      st' = st := by
    intro st' hs'
    rw [entered_workflow] at hs'
    exact Option.some.inj (hs'.symm.trans hs)
  refine ⟨by simpa using hr, ⟨st, by simpa using hs⟩, (h.landed so).entered so hs, ?_, ?_, ?_, ?_,
    ?_, ?_, ?_, ?_⟩
  · intro st' hs' hk ⟨a, hm, hid⟩
    obtain rfl := same hs'
    have hnf : st'.isKind .fanout = false := by
      rw [Bool.eq_false_iff]
      intro hf
      cases WorkflowStage.isKind_unique hk hf
    rw [entered_approvals, hnf] at hm
    obtain ⟨approver, count, bound, hst⟩ := WorkflowStage.isKind_approval_iff.mp hk
    have hsat := (h.records.approvalForStage_iff so.toShape hs hst).mpr ⟨a, hm, hid⟩
    rw [not_satisfied_at_landing hs] at hsat
    cases hsat
  · rw [attempt, entered_attempts, entered_stageIndex,
      getD_modify_succ (by rw [h.records.attempts]; exact hlt)]
    omega
  · rintro (h | h) <;> exact absurd rfl h
  · rintro c ⟨⟩
  · rintro ⟨st', hs', hk⟩
    obtain rfl := same hs'
    simp only at hk
    simp only [entered_fanoutChildTaskIds, entered_selectedFanoutChild, entered_approvals, hk,
      if_true, true_and]
    intro a hm
    rw [recordedBefore, entered_workflow, entered_stageIndex]
    exact (List.mem_filter.mp hm).2
  · intro hne
    exact absurd rfl hne
  · intro hne
    rw [entered_pendingHeadChanges] at hne
    exact absurd hp hne
  · intro st' c hs' hst
    obtain rfl := same hs'
    simp only [requestOf, hst] at ha
    split at ha
    · exact ⟨_, ‹_›⟩
    · cases ha

/-- Entry from a ready index leaves a live, finished or failed task. -/
theorem inv_of_entry (h : s.Ready i) (so : s.workflow.Sound) (hr : s.status = .running)
    (hp : s.pendingHeadChanges = []) (hi : i ≤ s.workflow.stages.length)
    (hend : i = s.workflow.stages.length →
      s.pendingWorkReason = none ∧ ¬ ∃ j, s.workflow.At j (·.isKind .merge))
    {s' : PipelineState} {A : List PipelineAction} (he : Entry s i s' A) : s'.Inv := by
  cases he with
  | asked hs hm ha => exact .live (h.live_of_asked so hr hp hs ha)
  | unexpanded hs hk he =>
    exact .stopped ⟨Or.inl rfl, { h.records.entered _ with reviewers := List.nodup_nil },
      by simpa [failTask, clearPartial] using (List.getElem?_eq_some_iff.mp hs).1,
      by simpa [failTask, clearPartial] using hp, fun hne => absurd rfl hne⟩
  | finished hs =>
    have hl : s.landing i = s.workflow.stages.length :=
      le_antisymm (landing_le hi) (List.getElem?_eq_none_iff.mp hs)
    have hready := h.landed so
    rw [hl] at hready
    have hmerge : ¬ ∃ j, s.workflow.At j (·.isKind .merge) := by
      rintro ⟨j, st, hs', hk⟩
      have hlast := so.mergeLast j ⟨st, hs', hk⟩
      rcases Nat.lt_or_ge j i with hlt | hge
      · exact (hend (by omega)).2 ⟨j, st, hs', hk⟩
      · cases WorkflowStage.isKind_unique hk (h.skipped so hge (by omega) hs').1
    split_ifs with hlt
    · exact .finished ⟨rfl,
        { hready with records := { hready.records with reviewers := List.nodup_nil } },
        le_rfl, hp, rfl, fun hcon => absurd hcon hmerge⟩
    · exact .finished ⟨rfl, { hready with records := { hready.records with } }, le_rfl, hp,
        (hend (by omega)).1, fun hcon => absurd hcon hmerge⟩

theorem exists_enter (h : s.Ready i) (so : s.workflow.Sound) :
    ∃ s' A, s.enterStage i = .ok (s', A) :=
  exists_entry ((h.landed so).gate_allowed so)

end Ready

/-- The last fanout of a done task has a winner if it is a pick. -/
theorem Finished.exists_winner (so : s.workflow.Sound) (h : s.Finished) {f : Nat}
    (hf : s.workflow.At f (·.isPickFanout))
    (hlast : ∀ g, f < g → ¬ s.workflow.At g (·.isKind .fanout)) :
    ∃ c, s.fanoutChildTaskIds = [c] ∧ s.selectedFanoutChild = some c := by
  obtain ⟨sa, hsa, hka⟩ := so.pickApproval f hf
  have hlt : f + 1 < s.workflow.stages.length := (List.getElem?_eq_some_iff.mp hsa).1
  exact h.ready.picked f sa hf hlast (by omega) hsa (h.ready.approved (f + 1) sa hlt hsa hka)

end Agend.Pipeline.PipelineState
