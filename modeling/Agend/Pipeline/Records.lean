import Agend.Pipeline.Enter
import Agend.Pipeline.Operations
import Mathlib.Data.List.Nodup

/-! The records of a task agree with its workflow and its current head, and every record
operation keeps them so. -/
namespace Agend.Pipeline

/-- The record of a command or approval stage of `w`, for `head` and `patch` when head-bound. -/
inductive ApprovalFits (w : Workflow) (head patch : Option String) (a : ApprovalRecord) : Prop
  | bound {i : Nat} {st : WorkflowStage} {approver : Approver} (hs : w.stages[i]? = some st)
      (hid : st.id = a.stageId) (hst : st.stage = .approval approver a.reviewers.length true)
      (hn : a.reviewers.Nodup) (hh : a.head = head) (hsome : head.isSome = true)
      (hp : a.patchId = patch)
  | unbound {i : Nat} {st : WorkflowStage} {approver : Approver} (hs : w.stages[i]? = some st)
      (hid : st.id = a.stageId) (hst : st.stage = .approval approver a.reviewers.length false)
      (hn : a.reviewers.Nodup) (hh : a.head = none) (hp : a.patchId = none)

structure CheckFits (w : Workflow) (head : Option String) (c : PassedCheck) : Prop where
  head : c.head = head
  stage : ∃ (i : Nat) (st : WorkflowStage),
    w.stages[i]? = some st ∧ st.id = c.stageId ∧ st.isKind .command = true

namespace PipelineState

def HasCheck (s : PipelineState) (id : String) : Prop := ∃ c ∈ s.passedChecks, c.stageId = id

def HasApproval (s : PipelineState) (id : String) : Prop := ∃ a ∈ s.approvals, a.stageId = id

/-- What restore asks of the records, and what the rest of a run relies on. -/
structure Records (s : PipelineState) : Prop where
  attempts : s.attempts.length = s.workflow.stages.length
  patch : s.currentHead.isSome = s.patchId.isSome
  head : s.branch.isSome = true → s.currentHead.isSome = true
  checks : ∀ c ∈ s.passedChecks, CheckFits s.workflow s.currentHead c
  checksNodup : (s.passedChecks.map (·.stageId)).Nodup
  approvals : ∀ a ∈ s.approvals, ApprovalFits s.workflow s.currentHead s.patchId a
  approvalsNodup : (s.approvals.map (·.stageId)).Nodup
  reviewers : s.approvalReviewers.Nodup
  selected : ∀ c ∈ s.selectedFanoutChild, c ∈ s.fanoutChildTaskIds
  children : s.fanoutChildTaskIds.Nodup
  notified : ∀ t ∈ s.notifiedTimeout,
    t.1 < s.workflow.stages.length ∧ 0 < t.2 ∧ t.2 ≤ s.attempts.getD t.1 0

variable {s : PipelineState}

theorem getD_modify_succ {l : List Nat} {i : Nat} (h : i < l.length) :
    (l.modify i (· + 1)).getD i 0 = l.getD i 0 + 1 := by
  simp [List.getD_eq_getElem?_getD, List.getElem?_eq_getElem h]

theorem getD_modify_of_ne {l : List Nat} {i j : Nat} (h : i ≠ j) :
    (l.modify i (· + 1)).getD j 0 = l.getD j 0 := by
  simp [List.getD_eq_getElem?_getD, h]

theorem getD_le_getD_modify {l : List Nat} {i j : Nat} :
    l.getD j 0 ≤ (l.modify i (· + 1)).getD j 0 := by
  rcases eq_or_ne i j with rfl | h
  · rcases lt_or_ge i l.length with hi | hi
    · rw [getD_modify_succ hi]
      omega
    · simp [List.getD_eq_getElem?_getD, List.getElem?_eq_none hi]
  · rw [getD_modify_of_ne h]

theorem Records.approvalForStage_iff (hr : s.Records) (sh : s.workflow.Shape) {i : Nat}
    {st : WorkflowStage} {approver : Approver} {count : Nat} {bound : Bool}
    (hs : s.workflow.stages[i]? = some st) (hst : st.stage = .approval approver count bound) :
    s.approvalForStage st = true ↔ s.HasApproval st.id := by
  simp only [approvalForStage, hst]
  -- Ids are unique, so a record of this stage is a record of its kind.
  have same : ∀ {a : ApprovalRecord} {j : Nat} {sj : WorkflowStage},
      s.workflow.stages[j]? = some sj → sj.id = a.stageId → a.stageId = st.id → sj = st := by
    intro a j sj hj hid ha
    obtain rfl := sh.ids j i sj st hj hs (hid.trans ha)
    exact Option.some.inj (hj.symm.trans hs)
  cases bound with
  | true =>
    simp only [approvalSatisfied, if_true, Bool.and_eq_true, List.contains_iff_mem,
      approvalHeads, List.mem_map, List.mem_filter, decide_eq_true_eq]
    constructor
    · rintro ⟨-, a, ⟨ha, hid⟩, -⟩
      exact ⟨a, ha, hid⟩
    · rintro ⟨a, ha, hid⟩
      cases hr.approvals a ha with
      | bound _ _ _ _ hh hsome => exact ⟨hsome, a, ⟨ha, hid⟩, hh⟩
      | unbound hj hid' hstj =>
        rw [same hj hid' hid, hst] at hstj
        cases hstj
  | false =>
    simp only [approvalSatisfied, Bool.false_eq_true, if_false, Bool.not_eq_true',
      List.isEmpty_eq_false_iff, approvalHeads, ne_eq, List.map_eq_nil_iff, List.filter_eq_nil_iff,
      decide_eq_true_eq, not_forall, not_not]
    constructor
    · rintro ⟨a, ha, hid⟩
      exact ⟨a, ha, hid⟩
    · rintro ⟨a, ha, hid⟩
      exact ⟨a, ha, hid⟩

theorem recordedBefore_iff (sh : s.workflow.Shape) {i n : Nat} {st : WorkflowStage}
    (hs : s.workflow.stages[i]? = some st) : s.recordedBefore n st.id = true ↔ i < n := by
  simp [recordedBefore, sh.stagePosition_eq hs]

/-- Every approval record belongs to an approval stage of the workflow. -/
theorem Records.stage_of_mem (h : s.Records) {a : ApprovalRecord} (ha : a ∈ s.approvals) :
    ∃ (i : Nat) (st : WorkflowStage), s.workflow.stages[i]? = some st ∧ st.id = a.stageId ∧
      st.isKind .approval = true ∧ (st.isBoundApproval = true ↔ a.head ≠ none) := by
  cases h.approvals a ha with
  | bound hs hid hst hn hh hsome hp =>
    refine ⟨_, _, hs, hid, WorkflowStage.isKind_approval_iff.mpr ⟨_, _, _, hst⟩, ?_⟩
    simp [WorkflowStage.isBoundApproval, hst, hh, Option.isSome_iff_ne_none.mp hsome]
  | unbound hs hid hst hn hh hp =>
    refine ⟨_, _, hs, hid, WorkflowStage.isKind_approval_iff.mpr ⟨_, _, _, hst⟩, ?_⟩
    simp [WorkflowStage.isBoundApproval, hst, hh]

theorem nodup_map_filter {α β : Type} {f : α → β} {p : α → Bool} {l : List α}
    (h : (l.map f).Nodup) : ((l.filter p).map f).Nodup :=
  h.sublist (List.filter_sublist.map f)

/-- Dropping records keeps the others; a winner picked by a dropped record is forgotten. -/
theorem Records.dropApprovals (h : s.Records) (keep : ApprovalRecord → Bool) :
    (s.dropApprovals keep).Records :=
  { h with
    approvals := fun a ha => h.approvals a (List.mem_of_mem_filter ha)
    approvalsNodup := nodup_map_filter h.approvalsNodup
    reviewers := List.nodup_nil
    selected := by
      intro c hc
      simp only [PipelineState.dropApprovals, clearPartial] at hc
      split_ifs at hc
      · cases hc
      · exact h.selected c hc }

theorem Records.clearPartial (h : s.Records) : s.clearPartial.Records :=
  { h with reviewers := List.nodup_nil }

theorem Records.clearFanout (h : s.Records) : s.clearFanout.Records :=
  { h with selected := by rintro c ⟨⟩, children := List.nodup_nil }

theorem Records.forgetFrom (h : s.Records) (target : Nat) : (s.forgetFrom target).Records := by
  refine Records.dropApprovals ?_ _
  exact { h with
    checks := fun c hc => h.checks c (List.mem_of_mem_filter hc)
    checksNodup := nodup_map_filter h.checksNodup }

theorem Records.entered (h : s.Records) {i : Nat} (st : WorkflowStage) :
    (s.entered i st).Records where
  attempts := by simp [h.attempts]
  patch := by simpa using h.patch
  head := by simpa using h.head
  checks := by simpa using h.checks
  checksNodup := by simpa using h.checksNodup
  approvals a ha := by
    rw [entered_workflow, entered_currentHead, entered_patchId]
    rw [entered_approvals] at ha
    split_ifs at ha
    · exact h.approvals a (List.mem_of_mem_filter ha)
    · exact h.approvals a ha
  approvalsNodup := by
    rw [entered_approvals]
    split_ifs
    · exact nodup_map_filter h.approvalsNodup
    · exact h.approvalsNodup
  reviewers := List.nodup_nil
  selected c hc := by
    rw [entered_selectedFanoutChild] at hc
    rw [entered_fanoutChildTaskIds]
    split_ifs at hc ⊢
    · cases hc
    · exact h.selected c hc
  children := by
    rw [entered_fanoutChildTaskIds]
    split_ifs
    · exact List.nodup_nil
    · exact h.children
  notified t ht := by
    rw [entered_notifiedTimeout] at ht
    rw [entered_workflow, entered_attempts]
    obtain ⟨h1, h2, h3⟩ := h.notified t ht
    exact ⟨h1, h2, h3.trans getD_le_getD_modify⟩

theorem Records.recordPass (h : s.Records) {i : Nat} {st : WorkflowStage}
    (hs : s.workflow.stages[i]? = some st) (hk : st.isKind .command = true) :
    (s.recordPass st.id s.currentHead).Records := by
  unfold PipelineState.recordPass
  split_ifs with hc
  · exact h
  · have hnew : ∀ c ∈ s.passedChecks, c.stageId ≠ st.id := by
      intro c hm hid
      refine hc (List.contains_iff_mem.mpr ?_)
      obtain ⟨id, head⟩ := c
      obtain rfl : head = s.currentHead := (h.checks _ hm).head
      exact hid ▸ hm
    exact { h with
      checks := by
        intro c hm
        rcases List.mem_append.mp hm with hm | hm
        · exact h.checks c hm
        · obtain rfl := List.mem_singleton.mp hm
          exact ⟨rfl, _, st, hs, rfl, hk⟩
      checksNodup := by
        simp only [List.map_append, List.map_cons, List.map_nil]
        refine List.Nodup.append h.checksNodup (List.nodup_singleton _) ?_
        rw [List.disjoint_singleton]
        intro hm
        obtain ⟨c, hc', hid⟩ := List.mem_map.mp hm
        exact hnew c hc' hid }

theorem hasCheck_recordPass {id id' : String} {head : Option String} :
    (s.recordPass id head).HasCheck id' ↔ s.HasCheck id' ∨ id' = id := by
  unfold PipelineState.recordPass HasCheck
  split_ifs with hc
  · have hm := List.contains_iff_mem.mp hc
    constructor
    · exact Or.inl
    · rintro (h | rfl)
      · exact h
      · exact ⟨_, hm, rfl⟩
  · simp [or_and_right, exists_or, eq_comm]

/-- The record of a stage is replaced by one with the reviewers collected now. -/
theorem Records.recordApproval (h : s.Records) {i : Nat} {st : WorkflowStage}
    {approver : Approver} {bound : Bool} {head : Option String}
    (hs : s.workflow.stages[i]? = some st)
    (hst : st.stage = .approval approver s.approvalReviewers.length bound)
    (hb : bound = true → s.currentHead.isSome = true ∧ head = s.currentHead) :
    (s.recordApproval st.id bound head).Records :=
  { h with
    approvals := by
      intro a ha
      rcases List.mem_append.mp ha with ha | ha
      · exact h.approvals a (List.mem_of_mem_filter ha)
      · obtain rfl := List.mem_singleton.mp ha
        cases bound with
        | true => exact .bound hs rfl hst h.reviewers (hb rfl).2 (hb rfl).1 rfl
        | false => exact .unbound hs rfl hst h.reviewers rfl rfl
    approvalsNodup := by
      simp only [PipelineState.recordApproval, List.map_append, List.map_cons, List.map_nil]
      refine List.Nodup.append (nodup_map_filter h.approvalsNodup) (List.nodup_singleton _) ?_
      rw [List.disjoint_singleton]
      intro hm
      obtain ⟨a, ha, hid⟩ := List.mem_map.mp hm
      exact (of_decide_eq_true (List.mem_filter.mp ha).2) hid
    reviewers := List.nodup_nil }

theorem hasApproval_recordApproval {id id' : String} {bound : Bool} {head : Option String} :
    (s.recordApproval id bound head).HasApproval id' ↔ s.HasApproval id' ∨ id' = id := by
  simp only [HasApproval, recordApproval, List.mem_append, List.mem_filter, decide_eq_true_eq,
    List.mem_singleton]
  constructor
  · rintro ⟨a, ⟨ha, -⟩ | rfl, hid⟩
    · exact Or.inl ⟨a, ha, hid⟩
    · exact Or.inr hid.symm
  · rintro (⟨a, ha, hid⟩ | rfl)
    · by_cases he : id' = id
      · exact ⟨_, Or.inr rfl, he.symm⟩
      · exact ⟨a, Or.inl ⟨ha, fun hcon => he (hid.symm.trans hcon)⟩, hid⟩
    · exact ⟨_, Or.inr rfl, rfl⟩

theorem Records.keepOnlyWinner (h : s.Records) (winner : String) :
    (s.keepOnlyWinner winner).1.Records :=
  { h with
    selected := by
      rintro c hc
      obtain rfl := Option.some.inj hc
      exact List.mem_singleton_self _
    children := List.nodup_singleton _ }

section newHead

variable {head patch : String}

/-- A new head drops every check and every head-bound approval. -/
theorem mem_approvals_recordNewHead (h : s.Records) (hne : s.currentHead ≠ some head)
    {a : ApprovalRecord} :
    a ∈ (s.recordNewHead head patch).approvals ↔ a ∈ s.approvals ∧ a.head = none := by
  have : (s.recordNewHead head patch).approvals =
      s.approvals.filter fun a => a.head = none || a.head = some head := rfl
  rw [this, List.mem_filter]
  simp only [Bool.or_eq_true, decide_eq_true_eq]
  refine and_congr_right fun ha => ⟨?_, Or.inl⟩
  rintro (hn | hh)
  · exact hn
  · cases h.approvals a ha with
    | bound _ _ _ _ hcur => exact absurd (hcur.symm.trans hh) hne
    | unbound _ _ _ _ hnone => exact hnone

theorem passedChecks_recordNewHead (h : s.Records) (hne : s.currentHead ≠ some head) :
    (s.recordNewHead head patch).passedChecks = [] := by
  have : (s.recordNewHead head patch).passedChecks =
      s.passedChecks.filter fun c => c.head = some head := rfl
  rw [this, List.filter_eq_nil_iff]
  intro c hc
  rw [(h.checks c hc).head]
  simpa using hne

theorem Records.recordNewHead (h : s.Records) (hne : s.currentHead ≠ some head) :
    (s.recordNewHead head patch).Records :=
  { h with
    patch := rfl
    head := fun _ => rfl
    checks := by simp [passedChecks_recordNewHead h hne]
    checksNodup := by simp [passedChecks_recordNewHead h hne]
    approvals := by
      intro a ha
      obtain ⟨ha, hn⟩ := (mem_approvals_recordNewHead h hne).mp ha
      cases h.approvals a ha with
      | bound _ _ _ _ hh hsome =>
        rw [← hh, hn] at hsome
        cases hsome
      | unbound hs hid hst hrev hh hp => exact .unbound hs hid hst hrev hh hp
    approvalsNodup := nodup_map_filter h.approvalsNodup
    reviewers := List.nodup_nil
    selected := by
      intro c hc
      refine h.selected c ?_
      simp only [PipelineState.recordNewHead, invalidateHeadBound, PipelineState.dropApprovals,
        PipelineState.clearPartial] at hc
      split_ifs at hc
      · cases hc
      · exact hc }

theorem hasApproval_recordNewHead (sh : s.workflow.Shape) (h : s.Records)
    (hne : s.currentHead ≠ some head) {i : Nat} {st : WorkflowStage}
    (hs : s.workflow.stages[i]? = some st) :
    (s.recordNewHead head patch).HasApproval st.id ↔
      s.HasApproval st.id ∧ st.isBoundApproval = false := by
  simp only [HasApproval, mem_approvals_recordNewHead h hne, and_assoc, ← exists_and_right]
  refine exists_congr fun a => and_congr_right fun ha => ?_
  obtain ⟨j, sj, hj, hid, -, hb⟩ := h.stage_of_mem ha
  have same : a.stageId = st.id → sj = st := fun he => by
    obtain rfl := sh.ids j i sj st hj hs (hid.trans he)
    exact Option.some.inj (hj.symm.trans hs)
  constructor
  · rintro ⟨hn, he⟩
    refine ⟨he, ?_⟩
    rw [← same he, Bool.eq_false_iff, ne_eq, hb]
    simpa using hn
  · rintro ⟨he, hf⟩
    rw [← same he, Bool.eq_false_iff, ne_eq, hb] at hf
    exact ⟨by simpa using hf, he⟩

/-- The winner is forgotten only with the head-bound approval that picked it. -/
theorem selected_recordNewHead (head patch : String) (sh : s.workflow.Shape) (h : s.Records) :
    (s.recordNewHead head patch).selectedFanoutChild = s.selectedFanoutChild ∨
      ∃ f, s.workflow.At f (·.isPickFanout) ∧ s.workflow.At (f + 1) (·.isBoundApproval) := by
  by_cases hd : (s.approvals.any fun a =>
      !(decide (a.head = none) || decide (a.head = some head)) && s.recordPicks a) = true
  · right
    simp only [List.any_eq_true, Bool.and_eq_true, Bool.not_eq_true', Bool.or_eq_false_iff,
      decide_eq_false_iff_not] at hd
    obtain ⟨a, ha, ⟨hn, -⟩, hp⟩ := hd
    obtain ⟨i, st, hs, hid, -, hb⟩ := h.stage_of_mem ha
    rw [recordPicks, ← hid, sh.stagePosition_eq hs, Option.any_some, sh.picks_iff] at hp
    obtain ⟨f, hf, rfl⟩ := hp
    exact ⟨f, hf, st, hs, hb.mpr hn⟩
  · left
    have : (s.recordNewHead head patch).selectedFanoutChild =
      if (s.approvals.any fun a =>
        !(decide (a.head = none) || decide (a.head = some head)) && s.recordPicks a) = true then none
      else s.selectedFanoutChild := rfl
    rw [this, if_neg hd]

end newHead

/-- The state after a clean rebase of the same patch: head-bound approvals move along. -/
def rebased (s : PipelineState) (oldHead approved newHead patch : String) : PipelineState :=
  ((PipelineState.clearPartial { s with passedChecks := [] }).carryApprovals oldHead approved
    newHead).recordNewHead newHead patch

section rebased

variable {old new patch : String}

theorem frame_rebased {approved : String} : Frame s (s.rebased old approved new patch) := by
  constructor <;> rfl

private def carried (old patch new : String) (a : ApprovalRecord) : ApprovalRecord :=
  if a.head = some old && a.patchId = some patch then { a with head := some new } else a

private theorem carried_stageId {a : ApprovalRecord} :
    (carried old patch new a).stageId = a.stageId := by
  unfold carried
  split <;> rfl

private theorem head_carried (new : String) (h : s.Records) (ho : s.currentHead = some old)
    (hp : s.patchId = some patch) {a : ApprovalRecord} (ha : a ∈ s.approvals) :
    (carried old patch new a).head = none ∨ (carried old patch new a).head = some new := by
  cases h.approvals a ha with
  | bound hs hid hst hn hh hsome hpa => simp [carried, hh, ho, hpa, hp]
  | unbound hs hid hst hn hh hpa => simp [carried, hh]

theorem approvals_rebased (h : s.Records) (ho : s.currentHead = some old)
    (hp : s.patchId = some patch) :
    (s.rebased old patch new patch).approvals =
      s.approvals.map fun a => if a.head = some old && a.patchId = some patch then
        { a with head := some new } else a := by
  change List.filter _ (s.approvals.map (carried old patch new)) = s.approvals.map _
  rw [List.filter_eq_self.mpr]
  · rfl
  · intro a ha
    obtain ⟨b, hb, rfl⟩ := List.mem_map.mp ha
    simpa using head_carried new h ho hp hb

theorem selected_rebased (h : s.Records) (ho : s.currentHead = some old)
    (hp : s.patchId = some patch) :
    (s.rebased old patch new patch).selectedFanoutChild = s.selectedFanoutChild := by
  have hd : ((s.approvals.map (carried old patch new)).any fun a =>
      !(decide (a.head = none) || decide (a.head = some new)) && s.recordPicks a) = false := by
    simp only [List.any_eq_false, List.mem_map, Bool.and_eq_true, Bool.not_eq_true', not_and]
    rintro - ⟨b, hb, rfl⟩ hcon
    rcases head_carried new h ho hp hb with hn | hn <;> simp [hn] at hcon
  change (if ((s.approvals.map (carried old patch new)).any fun a =>
      !(decide (a.head = none) || decide (a.head = some new)) && s.recordPicks a) = true then none
    else s.selectedFanoutChild) = _
  rw [hd, if_neg (by simp)]

theorem Records.rebased (h : s.Records) (ho : s.currentHead = some old)
    (hp : s.patchId = some patch) : (s.rebased old patch new patch).Records :=
  { h with
    patch := rfl
    head := fun _ => rfl
    checks := by intro c hc; cases hc
    checksNodup := List.nodup_nil
    approvals := by
      intro a ha
      rw [approvals_rebased h ho hp] at ha
      obtain ⟨b, hb, rfl⟩ := List.mem_map.mp ha
      cases h.approvals b hb with
      | bound hs hid hst hn hh hsome hpb =>
        rw [if_pos (by simp [hh, ho, hpb, hp])]
        exact .bound hs hid hst hn rfl rfl (hpb.trans hp)
      | unbound hs hid hst hn hh hpb =>
        rw [if_neg (by simp [hh])]
        exact .unbound hs hid hst hn hh hpb
    approvalsNodup := by
      rw [approvals_rebased h ho hp, List.map_map]
      rw [List.map_congr_left (g := (·.stageId)) fun a _ => (carried_stageId : _ =
        a.stageId)]
      exact h.approvalsNodup
    reviewers := List.nodup_nil
    selected := by
      rw [selected_rebased h ho hp]
      exact h.selected }

theorem hasApproval_rebased (h : s.Records) (ho : s.currentHead = some old)
    (hp : s.patchId = some patch) {id : String} :
    (s.rebased old patch new patch).HasApproval id ↔ s.HasApproval id := by
  simp only [HasApproval, approvals_rebased h ho hp, List.mem_map, exists_exists_and_eq_and]
  refine exists_congr fun a => and_congr_right fun _ => ?_
  rw [show (if a.head = some old && a.patchId = some patch then { a with head := some new } else a) =
    carried old patch new a from rfl, carried_stageId]

end rebased

/-! A work stage precedes everything bound to the head, so its product invalidates nothing. -/

section takeProduct

variable {product : WorkProduct}

private theorem filter_unbound (ha : ∀ a ∈ s.approvals, a.head = none) {head : Option String} :
    (s.approvals.filter fun a => a.head = none || a.head = head) = s.approvals :=
  List.filter_eq_self.mpr fun a hm => by simp [ha a hm]

theorem approvals_takeProduct (ha : ∀ a ∈ s.approvals, a.head = none) :
    (s.takeProduct product).approvals = s.approvals := by
  cases product with
  | branch b h p =>
    unfold PipelineState.takeProduct
    simp only
    split_ifs
    · exact filter_unbound ha
    · rfl
  | result => rfl
  | plan => unfold PipelineState.takeProduct; simp only; split_ifs <;> rfl

theorem passedChecks_takeProduct (hc : s.passedChecks = []) :
    (s.takeProduct product).passedChecks = [] := by
  cases product with
  | branch b h p =>
    unfold PipelineState.takeProduct
    simp only
    split_ifs
    · simp [invalidateHeadBound, PipelineState.dropApprovals, PipelineState.clearPartial, hc]
    · exact hc
  | result => exact hc
  | plan => unfold PipelineState.takeProduct; simp only; split_ifs <;> exact hc

/-- Only a plan touches the children, and only when a fanout is still to come. -/
theorem fanout_takeProduct (product : WorkProduct) (ha : ∀ a ∈ s.approvals, a.head = none) :
    ((s.takeProduct product).fanoutChildTaskIds = s.fanoutChildTaskIds ∧
        (s.takeProduct product).selectedFanoutChild = s.selectedFanoutChild) ∨
      ((s.takeProduct product).fanoutChildTaskIds = [] ∧
        (s.takeProduct product).selectedFanoutChild = none ∧
        s.fanoutAtOrAfter s.stageIndex = true ∧ ∃ items, product = .plan items) := by
  cases product with
  | branch b h p =>
    left
    have hd : (s.approvals.any fun a =>
        !(decide (a.head = none) || decide (a.head = some h)) && s.recordPicks a) = false := by
      simp only [List.any_eq_false, Bool.and_eq_true, Bool.not_eq_true', not_and]
      intro a hm hcon
      simp [ha a hm] at hcon
    unfold PipelineState.takeProduct
    simp only
    split_ifs
    · refine ⟨rfl, ?_⟩
      change (if (s.approvals.any fun a =>
        !(decide (a.head = none) || decide (a.head = some h)) && s.recordPicks a) = true then none
        else s.selectedFanoutChild) = _
      rw [hd, if_neg (by simp)]
    · exact ⟨rfl, rfl⟩
  | result => exact Or.inl ⟨rfl, rfl⟩
  | plan items =>
    unfold PipelineState.takeProduct
    simp only
    split_ifs with hf
    · exact Or.inr ⟨rfl, rfl, hf, items, rfl⟩
    · exact Or.inl ⟨rfl, rfl⟩

theorem Records.takeProduct (h : s.Records) (hc : s.passedChecks = [])
    (ha : ∀ a ∈ s.approvals, a.head = none) : (s.takeProduct product).Records := by
  have hfr : Frame s (s.takeProduct product) := frame_takeProduct
  have hfan := fanout_takeProduct product ha
  have hhead : (s.takeProduct product).currentHead.isSome =
      (s.takeProduct product).patchId.isSome ∧ ((s.takeProduct product).branch.isSome = true →
        (s.takeProduct product).currentHead.isSome = true) := by
    cases product with
    | branch => exact ⟨rfl, fun _ => rfl⟩
    | result => exact ⟨h.patch, h.head⟩
    | plan =>
      unfold PipelineState.takeProduct
      simp only
      split_ifs <;> exact ⟨h.patch, h.head⟩
  have hrev : (s.takeProduct product).approvalReviewers.Nodup := by
    cases product with
    | branch =>
      unfold PipelineState.takeProduct
      simp only
      split_ifs
      · exact List.nodup_nil
      · exact h.reviewers
    | result => exact h.reviewers
    | plan =>
      unfold PipelineState.takeProduct
      simp only
      split_ifs <;> exact h.reviewers
  refine ⟨by rw [hfr.attempts, hfr.workflow, h.attempts], hhead.1, hhead.2,
    by simp [passedChecks_takeProduct hc], by simp [passedChecks_takeProduct hc], ?_,
    by rw [approvals_takeProduct ha]; exact h.approvalsNodup, hrev, ?_, ?_, ?_⟩
  · intro a hm
    rw [approvals_takeProduct ha] at hm
    rw [hfr.workflow]
    cases h.approvals a hm with
    | bound _ _ _ _ hh hsome => simp [← hh, ha a hm] at hsome
    | unbound hs hid hst hn hh hp => exact .unbound hs hid hst hn hh hp
  · rcases hfan with ⟨h1, h2⟩ | ⟨-, h2, -⟩
    · rw [h1, h2]
      exact h.selected
    · rw [h2]
      rintro c ⟨⟩
  · rcases hfan with ⟨h1, -⟩ | ⟨h1, -⟩ <;> rw [h1]
    · exact h.children
    · exact List.nodup_nil
  · rw [hfr.notifiedTimeout, hfr.workflow, hfr.attempts]
    exact h.notified

end takeProduct

end PipelineState

end Agend.Pipeline
