import Agend.Pipeline.Moves

/-! A stage whose result is in: what the handlers record lets the task go on to the next stage. -/
namespace Agend.Pipeline.PipelineState

variable {s : PipelineState}

/-- The stage at `i` is settled by `s'`: everything up to `i + 1` is. -/
theorem Ready.completed (so : s.workflow.Sound) {i : Nat} (h : s.Ready i) {st : WorkflowStage}
    (hs : s.workflow.stages[i]? = some st) {s' : PipelineState} (hw : s'.workflow = s.workflow)
    (hrec : s'.Records)
    (hcheck : ∀ id, s'.HasCheck id ↔ s.HasCheck id ∨ st.isKind .command = true ∧ id = st.id)
    (happroval : ∀ id, s'.HasApproval id ↔
      s.HasApproval id ∨ st.isKind .approval = true ∧ id = st.id)
    (hbranch : s'.branch.isSome = true ↔ s.branch.isSome = true ∨ st.isBranchWork = true)
    (hfanout : st.isKind .fanout = true → s'.fanoutChildTaskIds ≠ [])
    (hkeep : st.isKind .fanout = false → st.isKind .work = false → s.fanoutChildTaskIds ≠ [] →
      s'.fanoutChildTaskIds ≠ [])
    (hpicked : ∀ (f : Nat) (sf : WorkflowStage), s.workflow.At f (·.isPickFanout) →
      (∀ g, f < g → ¬ s.workflow.At g (·.isKind .fanout)) → f < i + 1 →
      s.workflow.stages[f + 1]? = some sf → s'.HasApproval sf.id →
      ∃ c, s'.fanoutChildTaskIds = [c] ∧ s'.selectedFanoutChild = some c) :
    s'.Ready (i + 1) := by
  have at_i : ∀ {j : Nat} {sj : WorkflowStage}, j < i + 1 → ¬ j < i →
      s.workflow.stages[j]? = some sj → sj = st := by
    intro j sj h1 h2 hsj
    obtain rfl : j = i := by omega
    exact Option.some.inj (hsj.symm.trans hs)
  refine ⟨hrec, fun j sj hj hsj hk => ?_, fun j sj hj hsj hk => ?_, fun hb => ⟨?_, fun a ha => ?_⟩,
    fun hb => ?_, fun hb => ?_, fun f hf hlt hor hclear => ?_, ?_⟩
  · rw [hw] at hsj
    rw [hcheck]
    by_cases hlt : j < i
    · exact Or.inl (h.passed j sj hlt hsj hk)
    · obtain rfl := at_i hj hlt hsj
      exact Or.inr ⟨hk, rfl⟩
  · rw [hw] at hsj
    rw [happroval]
    by_cases hlt : j < i
    · exact Or.inl (h.approved j sj hlt hsj hk)
    · obtain rfl := at_i hj hlt hsj
      exact Or.inr ⟨hk, rfl⟩
  · rw [hw] at hb
    rw [List.eq_nil_iff_forall_not_mem]
    intro c hc
    rcases (hcheck c.stageId).mp ⟨c, hc, rfl⟩ with ⟨c', hc', -⟩ | ⟨hk, -⟩
    · rw [(h.ahead fun j hj => hb j (by omega)).1] at hc'
      cases hc'
    · exact hb i (by omega) ⟨st, hs, WorkflowStage.isHeadBound_iff.mpr (Or.inl hk)⟩
  · rw [hw] at hb
    rw [recordedBefore, hw]
    rcases (happroval a.stageId).mp ⟨a, ha, rfl⟩ with ⟨b, hbm, hid⟩ | ⟨-, hid⟩
    · have := (h.ahead fun j hj => hb j (by omega)).2 b hbm
      obtain ⟨k, sk, hsk, hsid, -⟩ := h.records.stage_of_mem hbm
      rw [← hsid, recordedBefore_iff so.toShape hsk] at this
      rw [← hid, ← hsid]
      exact (recordedBefore_iff so.toShape hsk).mpr (by omega)
    · rw [hid]
      exact (recordedBefore_iff so.toShape hs).mpr (by omega)
  · rw [hw] at hb
    obtain ⟨j, hj, sj, hsj, hbw⟩ := hb
    rw [hbranch]
    by_cases hlt : j < i
    · exact Or.inl (h.branched ⟨j, hlt, sj, hsj, hbw⟩)
    · obtain rfl := at_i hj hlt hsj
      exact Or.inr hbw
  · rw [hw]
    rcases hbranch.mp hb with hb | hb
    · obtain ⟨j, hj, hjw⟩ := h.sourced hb
      exact ⟨j, by omega, hjw⟩
    · exact ⟨i, by omega, st, hs, WorkflowStage.isKind_work_of_isBranchWork hb⟩
  · rw [hw] at hf hor hclear
    by_cases hfi : f = i
    · subst hfi
      rw [Workflow.at_iff hs] at hf
      exact hfanout (WorkflowStage.isKind_fanout_of_isPickFanout hf)
    · have hi := hclear i (by omega) (by omega)
      rw [Workflow.at_iff hs, Workflow.at_iff hs, Bool.not_eq_true, Bool.not_eq_true] at hi
      refine hkeep hi.1 hi.2 (h.offered f hf (by omega) (Or.inr ?_) fun j h1 h2 => hclear j h1 (by omega))
      exact hor.resolve_left (by omega)
  · rw [hw]
    exact hpicked

namespace Live

variable {st : WorkflowStage}

theorem index_lt (h : s.Live) : s.stageIndex < s.workflow.stages.length := by
  obtain ⟨st, hs⟩ := h.stage
  exact (List.getElem?_eq_some_iff.mp hs).1

/-- Before the first head-bound stage there are no checks and no head-bound approvals. -/
theorem notBound_of_work (so : s.workflow.Sound) (hs : s.workflow.stages[s.stageIndex]? = some st)
    (hk : st.isKind .work = true) : ∀ j ≤ s.stageIndex, ¬ s.workflow.At j (·.isHeadBound) := by
  rintro j hj ⟨sj, hsj, hb⟩
  have := so.workBefore j _ ⟨sj, hsj, WorkflowStage.needsHead_of_isHeadBound hb⟩ ⟨st, hs, hk⟩
  omega

theorem ready_takeProduct (so : s.workflow.Sound) (h : s.Live)
    (hs : s.workflow.stages[s.stageIndex]? = some st) {role text : String} {output : WorkOutput}
    (hst : st.stage = .work role text output) {product : WorkProduct}
    (hm : productMatches output product = true) :
    (s.takeProduct product).Ready (s.stageIndex + 1) := by
  have hk : st.isKind .work = true := WorkflowStage.isKind_work_iff.mpr ⟨_, _, _, hst⟩
  have hnb := notBound_of_work so hs hk
  have hun := h.ready.unbound so hnb
  have hchecks := (h.ready.ahead hnb).1
  have other : ∀ {k : StageKind}, k ≠ .work → st.isKind k = false := by
    intro k hne
    rw [Bool.eq_false_iff]
    exact fun hk' => hne (WorkflowStage.isKind_unique hk' hk)
  refine h.ready.completed so hs frame_takeProduct.workflow
    (h.ready.records.takeProduct hchecks hun) ?_ ?_ ?_ ?_ ?_ ?_
  · intro id
    simp [HasCheck, passedChecks_takeProduct hchecks, hchecks, other]
  · intro id
    simp [HasApproval, approvals_takeProduct hun, other]
  · cases product with
    | branch b head patch =>
      cases output <;> simp [productMatches] at hm
      simp [takeProduct, WorkflowStage.isBranchWork, hst]
    | result => cases output <;> simp [productMatches] at hm; simp [takeProduct, WorkflowStage.isBranchWork, hst]
    | plan =>
      cases output <;> simp [productMatches] at hm
      unfold takeProduct
      simp only [WorkflowStage.isBranchWork, hst]
      split_ifs <;> simp [clearFanout]
  · intro hf
    rw [other (by simp)] at hf
    cases hf
  · intro _ hw
    rw [hk] at hw
    cases hw
  · intro f sf hf hlast hlt hsf ha
    have hff : ∀ g, s.workflow.At g (·.isKind .fanout) → g ≠ s.stageIndex := by
      rintro g hg rfl
      rw [Workflow.at_iff hs, other (by simp)] at hg
      cases hg
    have hfk : s.workflow.At f (·.isKind .fanout) := by
      obtain ⟨x, hx, hp⟩ := hf
      exact ⟨x, hx, WorkflowStage.isKind_fanout_of_isPickFanout hp⟩
    have hlt' : f < s.stageIndex := lt_of_le_of_ne (by omega) (hff f hfk)
    have ha' : s.HasApproval sf.id := by
      simpa [HasApproval, approvals_takeProduct hun] using ha
    obtain ⟨c, hc, hsel⟩ := h.ready.picked f sf hf hlast hlt' hsf ha'
    rcases fanout_takeProduct product hun with ⟨h1, h2⟩ | ⟨-, -, hn, -⟩
    · exact ⟨c, h1.trans hc, h2.trans hsel⟩
    · obtain ⟨g, hg, hgf⟩ := fanoutAtOrAfter_iff.mp hn
      exact absurd hgf (hlast g (by omega))

private theorem pickFanout_ne (hs : s.workflow.stages[s.stageIndex]? = some st)
    (hk : st.isKind .fanout = false) {f : Nat} (hf : s.workflow.At f (·.isPickFanout)) :
    f ≠ s.stageIndex := by
  rintro rfl
  rw [Workflow.at_iff hs] at hf
  rw [WorkflowStage.isKind_fanout_of_isPickFanout hf] at hk
  cases hk

theorem ready_submitted (so : s.workflow.Sound) (h : s.Live)
    (hs : s.workflow.stages[s.stageIndex]? = some st) {forge : String}
    (hst : st.stage = .submit forge) (changeId : Option String) :
    Ready { s with changeId := changeId } (s.stageIndex + 1) := by
  have hf : st.isKind .fanout = false := by simp [WorkflowStage.isKind, hst, Stage.kind]
  refine h.ready.completed so hs rfl { h.ready.records with } (fun id => ?_) (fun id => ?_) ?_ ?_
    (fun _ _ hne => hne) fun f sf hp hlast hlt => h.ready.picked f sf hp hlast ?_
  · simp [HasCheck, WorkflowStage.isKind, hst, Stage.kind]
  · simp [HasApproval, WorkflowStage.isKind, hst, Stage.kind]
  · simp [WorkflowStage.isBranchWork, hst]
  · simp [hf]
  · have := pickFanout_ne hs hf hp
    omega

theorem ready_recordPass (so : s.workflow.Sound) (h : s.Live)
    (hs : s.workflow.stages[s.stageIndex]? = some st) {command : String}
    (hst : st.stage = .command command) :
    (s.recordPass st.id s.currentHead).Ready (s.stageIndex + 1) := by
  have hk : st.isKind .command = true := WorkflowStage.isKind_command_iff.mpr ⟨_, hst⟩
  have hf : st.isKind .fanout = false := by simp [WorkflowStage.isKind, hst, Stage.kind]
  have eqs : (s.recordPass st.id s.currentHead).approvals = s.approvals ∧
      (s.recordPass st.id s.currentHead).branch = s.branch ∧
      (s.recordPass st.id s.currentHead).fanoutChildTaskIds = s.fanoutChildTaskIds ∧
      (s.recordPass st.id s.currentHead).selectedFanoutChild = s.selectedFanoutChild := by
    unfold PipelineState.recordPass
    split_ifs <;> exact ⟨rfl, rfl, rfl, rfl⟩
  obtain ⟨happ, hbr, hch, hsel⟩ := eqs
  refine h.ready.completed so hs frame_recordPass.workflow (h.ready.records.recordPass hs hk)
    (fun id => ?_) (fun id => ?_) ?_ ?_ ?_ fun f sf hp hlast hlt hsf ha => ?_
  · simp [hasCheck_recordPass, hk]
  · simp [HasApproval, happ, WorkflowStage.isKind, hst, Stage.kind]
  · simp [hbr, WorkflowStage.isBranchWork, hst]
  · simp [hf]
  · rw [hch]
    exact fun _ _ hne => hne
  · have := pickFanout_ne hs hf hp
    rw [hch, hsel]
    refine h.ready.picked f sf hp hlast (by omega) hsf ?_
    simpa [HasApproval, happ] using ha

/-- The records of a fanout: no approval at or after it has one, so none has picked yet. -/
theorem ready_children (so : s.workflow.Sound) (h : s.Live)
    (hs : s.workflow.stages[s.stageIndex]? = some st) {source : FanoutSource} {join : FanoutJoin}
    (hst : st.stage = .fanout source join) {children : List String} {selected : Option String}
    (hne : children ≠ []) (hnd : children.Nodup) (hsel : ∀ c ∈ selected, c ∈ children) :
    Ready { s with selectedFanoutChild := selected, fanoutChildTaskIds := children }
      (s.stageIndex + 1) := by
  have hk : st.isKind .fanout = true := WorkflowStage.isKind_fanout_iff.mpr ⟨_, _, hst⟩
  refine h.ready.completed so hs rfl { h.ready.records with selected := hsel, children := hnd }
    (fun id => ?_) (fun id => ?_) ?_ (fun _ => hne) ?_ fun f sf hp hlast hlt hsf ha => ?_
  · simp [HasCheck, WorkflowStage.isKind, hst, Stage.kind]
  · simp [HasApproval, WorkflowStage.isKind, hst, Stage.kind]
  · simp [WorkflowStage.isBranchWork, hst]
  · simp [hk]
  · exfalso
    obtain rfl : f = s.stageIndex := by
      by_contra hcon
      exact hlast s.stageIndex (by omega) ⟨st, hs, hk⟩
    obtain ⟨a, hm, hid⟩ := ha
    have := (h.fanout ⟨st, hs, hk⟩).2.2 a hm
    rw [hid, recordedBefore_iff so.toShape hsf] at this
    omega

private theorem ready_recorded (so : s.workflow.Sound) (h : s.Live)
    (hs : s.workflow.stages[s.stageIndex]? = some st) {approver : Approver} {count : Nat}
    {bound : Bool} (hst : st.stage = .approval approver count bound) {s' : PipelineState}
    (hrec : s'.Records) (hw : s'.workflow = s.workflow) (hbr : s'.branch = s.branch)
    (hchecks : s'.passedChecks = s.passedChecks)
    (happ : ∀ id, s'.HasApproval id ↔ s.HasApproval id ∨ id = st.id)
    (hpick : s.workflow.picks s.stageIndex = false ∧
        s'.fanoutChildTaskIds = s.fanoutChildTaskIds ∧
        s'.selectedFanoutChild = s.selectedFanoutChild ∨
      ∃ c, s.workflow.picks s.stageIndex = true ∧ s'.fanoutChildTaskIds = [c] ∧
        s'.selectedFanoutChild = some c) : s'.Ready (s.stageIndex + 1) := by
  have hk : st.isKind .approval = true := WorkflowStage.isKind_approval_iff.mpr ⟨_, _, _, hst⟩
  have hf : st.isKind .fanout = false := by simp [WorkflowStage.isKind, hst, Stage.kind]
  refine h.ready.completed so hs hw hrec (fun id => ?_) (fun id => ?_) ?_ (by simp [hf]) ?_
    fun f sf hp hlast hlt hsf ha => ?_
  · simp [HasCheck, hchecks, WorkflowStage.isKind, hst, Stage.kind]
  · simp [happ, hk]
  · simp [hbr, WorkflowStage.isBranchWork, hst]
  · rcases hpick with ⟨-, hch, -⟩ | ⟨c, -, hch, -⟩ <;> simp [hch]
  · rcases hpick with ⟨hno, hch, hsel⟩ | ⟨c, -, hch, hsel⟩
    · have hne := pickFanout_ne hs hf hp
      rw [hch, hsel]
      refine h.ready.picked f sf hp hlast (by omega) hsf (((happ _).mp ha).resolve_right ?_)
      -- This stage picks for no fanout, so it is not the approval after `f`.
      intro hid
      have := so.ids _ _ sf st hsf hs hid
      rw [Bool.eq_false_iff, ne_eq, so.picks_iff] at hno
      exact hno ⟨f, hp, this.symm⟩
    · exact ⟨c, hch, hsel⟩

/-- The reviewers collected so far are one short of a count that the next one meets. -/
theorem count_eq (so : s.workflow.Sound) (h : s.Live)
    (hs : s.workflow.stages[s.stageIndex]? = some st) {approver : Approver} {count : Nat}
    {bound : Bool} (hst : st.stage = .approval approver count bound) :
    s.approvalReviewers.length < count := by
  by_cases hne : s.approvalReviewers = []
  · have := so.count _ _ _ _ _ hs hst
    rw [hne, List.length_nil]
    omega
  · obtain ⟨st', approver', count', bound', hs', hst', hlt⟩ := h.collecting (Or.inl hne)
    obtain rfl := Option.some.inj (hs.symm.trans hs')
    rw [hst] at hst'
    cases hst'
    exact hlt

/-- A pick always has somebody to choose. -/
theorem children_ne_nil (so : s.workflow.Sound) (h : s.Live)
    (hp : s.workflow.picks s.stageIndex = true) : s.fanoutChildTaskIds ≠ [] := by
  obtain ⟨f, hf, hi⟩ := so.picks_iff.mp hp
  obtain ⟨sa, hsa, hka⟩ := so.pickApproval f hf
  refine h.ready.offered f hf (by omega) (Or.inl hi.symm) fun j h1 h2 => ?_
  obtain rfl : j = f + 1 := by omega
  rw [Workflow.at_iff hsa, Workflow.at_iff hsa]
  constructor
  · intro hcon
    cases WorkflowStage.isKind_unique hka hcon
  · intro hcon
    cases WorkflowStage.isKind_unique hka hcon

section approvalMet

variable {approver : Approver} {count : Nat} {bound : Bool} {reviewer : String}
  {head child : Option String} {next : PipelineState}

/-- The record a met approval leaves. -/
theorem records_approvalMet (so : s.workflow.Sound) (h : s.Live)
    (hs : s.workflow.stages[s.stageIndex]? = some st)
    (hst : st.stage = .approval approver count bound)
    (hb : bound = true → s.currentHead.isSome = true ∧ head = s.currentHead)
    (hr : reviewer ∉ s.approvalReviewers) (hp : s.choosePick child = .ok next)
    (hge : count ≤ s.approvalReviewers.length + 1) :
    (recordApproval { next with approvalReviewers := s.approvalReviewers ++ [reviewer] } st.id
      bound head).Records := by
  have hcount : count = (s.approvalReviewers ++ [reviewer]).length := by
    have := h.count_eq so hs hst
    simp only [List.length_append, List.length_singleton]
    omega
  have hnd : (s.approvalReviewers ++ [reviewer]).Nodup := by
    simpa [List.nodup_append] using ⟨h.ready.records.reviewers, fun a ha he => hr (he ▸ ha)⟩
  rw [hcount] at hst
  rcases choosePick_eq hp with ⟨rfl, -⟩ | ⟨_, -, rfl, -⟩
  all_goals
    refine Records.recordApproval ?_ hs hst hb
    exact { h.ready.records with reviewers := hnd }

/-- A met approval that picks no winner settles its stage. -/
theorem ready_approvalMet (so : s.workflow.Sound) (h : s.Live)
    (hs : s.workflow.stages[s.stageIndex]? = some st)
    (hst : st.stage = .approval approver count bound)
    (hb : bound = true → s.currentHead.isSome = true ∧ head = s.currentHead)
    (hr : reviewer ∉ s.approvalReviewers) (hp : s.choosePick child = .ok next)
    (hge : count ≤ s.approvalReviewers.length + 1)
    (hno : s.workflow.picks s.stageIndex = false) :
    (recordApproval { next with approvalReviewers := s.approvalReviewers ++ [reviewer] } st.id
      bound head).Ready (s.stageIndex + 1) := by
  have hrec := h.records_approvalMet so hs hst hb hr hp hge
  rcases choosePick_eq hp with ⟨rfl, -⟩ | ⟨_, -, rfl, -⟩
  all_goals
    exact h.ready_recorded so hs hst hrec rfl rfl rfl (fun id => hasApproval_recordApproval)
      (Or.inl ⟨hno, rfl, rfl⟩)

/-- A met approval that picks settles its stage with the winner as the only child. -/
theorem ready_picked (so : s.workflow.Sound) (h : s.Live)
    (hs : s.workflow.stages[s.stageIndex]? = some st)
    (hst : st.stage = .approval approver count bound)
    (hb : bound = true → s.currentHead.isSome = true ∧ head = s.currentHead)
    (hr : reviewer ∉ s.approvalReviewers) (hp : s.choosePick child = .ok next)
    (hge : count ≤ s.approvalReviewers.length + 1)
    (hpick : s.workflow.picks s.stageIndex = true) (winner : String) :
    (keepOnlyWinner { recordApproval
        { next with approvalReviewers := s.approvalReviewers ++ [reviewer] } st.id bound head with
        pendingPick := none } winner).1.Ready (s.stageIndex + 1) := by
  have hrec := h.records_approvalMet so hs hst hb hr hp hge
  rcases choosePick_eq hp with ⟨rfl, -⟩ | ⟨_, -, rfl, -⟩
  all_goals
    refine h.ready_recorded so hs hst (Records.keepOnlyWinner ?_ winner) rfl rfl rfl
      (fun id => hasApproval_recordApproval) (Or.inr ⟨winner, hpick, rfl, rfl⟩)
    exact { hrec with }

end approvalMet

end Live

end Agend.Pipeline.PipelineState
