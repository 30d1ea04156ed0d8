import Agend.Pipeline.Rework
import Mathlib.Logic.Relation

/-! Every record that opens the merge gate was earned, and nothing since took it back. -/
namespace Agend.Pipeline

open PipelineState Relation Library

/-- One head change applied to the state before it. -/
structure HeadStep where
  before : PipelineState
  change : PendingHeadChange
  after : PipelineState

/-- The changes `applyPending` applies, one after the other. -/
def headSteps : List PendingHeadChange → PipelineState → List HeadStep
  | [], _ => []
  | change :: rest, s =>
    match s.applyHeadChange change with
    | .error _ => []
    | .ok (s', _) => ⟨s, change, s'⟩ :: headSteps rest s'

/-- The head changes an event applies; while the merge is in flight they wait for its failure. -/
def appliedChanges (s : PipelineState) (e : PipelineEvent) : List HeadStep :=
  match e with
  | .commitCreated head patchId =>
    if s.mergeInFlight then [] else headSteps [.commitCreated head patchId] s
  | .mainAdvanced head patchId conflict =>
    if s.mergeInFlight then [] else headSteps [.mainAdvanced head patchId conflict] s
  | .mergeFailed _ _ _ _ => headSteps s.pendingHeadChanges { s with pendingHeadChanges := [] }
  | _ => []

/-- A clean rebase of the patch the task is at moved its head. -/
def HeadStep.Rebases (x : HeadStep) (old new : Option String) : Prop :=
  ∃ head patchId, x.change = .mainAdvanced head patchId false ∧ x.before.patchId = some patchId ∧
    x.before.currentHead = old ∧ x.after.currentHead = new ∧ new = some head

/-- An accepted `MainAdvanced` was a clean rebase of the same patch from `old` to `new`. -/
def Rebased (history : List PipelineTransition) (old new : Option String) : Prop :=
  ∃ t ∈ history, ∃ x ∈ appliedChanges t.before t.event, x.Rebases old new ∧
    ∃ t' ∈ history, t'.event = x.change.event

def HeadChanged (t : PipelineTransition) : Prop := t.after.currentHead ≠ t.before.currentHead

/-- The step returns the task to a work stage at or before `j`. -/
def ReturnsTo (w : Workflow) (j : Nat) (t : PipelineTransition) : Prop :=
  ∃ id n role reason, .returnToWork id n role reason ∈ t.output ∧
    ∃ k ≤ j, ∃ st, w.stages[k]? = some st ∧ st.id = id

/-- The step opens an attempt of a fanout stage at or before `j`. -/
def EntersFanout (w : Workflow) (j : Nat) (t : PipelineTransition) : Prop :=
  ∃ g ≤ j, w.At g (·.isKind .fanout) ∧ t.before.attempts.getD g 0 < t.after.attempts.getD g 0

/-- The check of the stage passed for `head`. -/
def Passes (stageId : String) (head : Option String) (t : PipelineTransition) : Prop :=
  ∃ n, t.event = .commandFinished stageId n head (some 0)

/-- The reviewer approved the stage, for a head that satisfies `covers`. -/
def Grants (stageId reviewer : String) (covers : Option String → Prop) (t : PipelineTransition) :
    Prop :=
  ∃ n head child, t.event = .approvalGranted stageId n reviewer head child ∧ covers head

/-- What the history has to show for the stages before `m` when `head` is merged. -/
structure Authorised (w : Workflow) (history : List PipelineTransition) (head : Option String)
    (m : Nat) : Prop where
  checks : ∀ j < m, ∀ st, w.stages[j]? = some st → st.isKind .command = true →
    Since (fun t => HeadChanged t ∨ ReturnsTo w j t) (Passes st.id head) history
  approvals : ∀ j < m, ∀ st approver count bound, w.stages[j]? = some st →
    st.stage = .approval approver count bound →
    ∃ reviewers : List String, reviewers.Nodup ∧ count ≤ reviewers.length ∧ ∀ r ∈ reviewers,
      Since (fun t => ReturnsTo w j t ∨ EntersFanout w j t)
        (Grants st.id r fun given => bound = true → ReflTransGen (Rebased history) given head)
        history

/-- The records of `s'` are records of `s` that still count, along the head changes in `R`. -/
structure Carried (R : Option String → Option String → Prop) (s s' : PipelineState) : Prop where
  workflow : s'.workflow = s.workflow
  checks : ∀ c ∈ s'.passedChecks, c ∈ s.passedChecks ∧ s'.currentHead = s.currentHead
  approvals : ∀ a ∈ s'.approvals, ∃ b ∈ s.approvals, b.stageId = a.stageId ∧
    b.reviewers = a.reviewers ∧
    (a.head ≠ none → b.head ≠ none ∧ ReflTransGen R s.currentHead s'.currentHead)
  collecting : s'.approvalReviewers ≠ [] → s'.approvalReviewers = s.approvalReviewers ∧
    s'.stageIndex = s.stageIndex ∧ s'.currentHead = s.currentHead ∧ s'.attempts = s.attempts
  fanouts : ∀ g, s.workflow.At g (·.isKind .fanout) →
    s.attempts.getD g 0 < s'.attempts.getD g 0 →
    ∀ a ∈ s'.approvals, s.recordedBefore g a.stageId = true

variable {taskId : String} {w : ValidatedWorkflow} {s s' : PipelineState} {e : PipelineEvent}
  {A : List PipelineAction} {R : Option String → Option String → Prop}

namespace Carried

theorem trans {s1 : PipelineState} (h : Carried R s s1) (h' : Carried R s1 s') : Carried R s s' where
  workflow := h'.workflow.trans h.workflow
  checks c hc := by
    obtain ⟨hc, he⟩ := h'.checks c hc
    obtain ⟨hc, he'⟩ := h.checks c hc
    exact ⟨hc, he.trans he'⟩
  approvals a ha := by
    obtain ⟨b, hb, hid, hrev, hhead⟩ := h'.approvals a ha
    obtain ⟨b', hb', hid', hrev', hhead'⟩ := h.approvals b hb
    refine ⟨b', hb', hid'.trans hid, hrev'.trans hrev, fun hne => ?_⟩
    obtain ⟨hne1, hchain⟩ := hhead hne
    obtain ⟨hne2, hchain'⟩ := hhead' hne1
    exact ⟨hne2, hchain'.trans hchain⟩
  collecting hne := by
    obtain ⟨h1, h2, h3, h4⟩ := h'.collecting hne
    obtain ⟨h1', h2', h3', h4'⟩ := h.collecting (h1 ▸ hne)
    exact ⟨h1.trans h1', h2.trans h2', h3.trans h3', h4.trans h4'⟩
  fanouts g hg hlt a ha := by
    rcases Nat.lt_or_ge (s1.attempts.getD g 0) (s'.attempts.getD g 0) with hlt' | hge
    · have := h'.fanouts g (h.workflow ▸ hg) hlt' a ha
      rwa [recordedBefore, h.workflow] at this
    · obtain ⟨b, hb, hid, -⟩ := h'.approvals a ha
      exact hid ▸ h.fanouts g hg (lt_of_lt_of_le hlt hge) b hb

/-- Nothing was added, and no fanout was entered. -/
theorem of_subset (hw : s'.workflow = s.workflow) (hh : s'.currentHead = s.currentHead)
    (hc : ∀ c ∈ s'.passedChecks, c ∈ s.passedChecks) (ha : ∀ a ∈ s'.approvals, a ∈ s.approvals)
    (hr : s'.approvalReviewers ≠ [] →
      s'.approvalReviewers = s.approvalReviewers ∧ s'.stageIndex = s.stageIndex)
    (hn : s'.attempts = s.attempts) : Carried R s s' where
  workflow := hw
  checks c hm := ⟨hc c hm, hh⟩
  approvals a hm := ⟨a, ha a hm, rfl, rfl, fun hne => ⟨hne, hh ▸ .refl⟩⟩
  collecting hne := ⟨(hr hne).1, (hr hne).2, hh, hn⟩
  fanouts g _ hlt := by
    rw [hn] at hlt
    exact absurd hlt (lt_irrefl _)

theorem refl : Carried R s s :=
  .of_subset rfl rfl (fun _ h => h) (fun _ h => h) (fun _ => ⟨rfl, rfl⟩) rfl

private theorem entered {s1 : PipelineState} {l : Nat} {st : WorkflowStage}
    (hs : s1.workflow.stages[l]? = some st) (hw : s'.workflow = s1.workflow)
    (hh : s'.currentHead = s1.currentHead) (hc : s'.passedChecks = s1.passedChecks)
    (ha : s'.approvals = (s1.entered l st).approvals) (hr : s'.approvalReviewers = [])
    (hn : s'.attempts = s1.attempts.modify l (· + 1)) : Carried R s1 s' := by
  have sub : ∀ a ∈ s'.approvals, a ∈ s1.approvals := by
    intro a hm
    rw [ha, entered_approvals] at hm
    split_ifs at hm
    · exact List.mem_of_mem_filter hm
    · exact hm
  refine ⟨hw, fun c hm => ⟨hc ▸ hm, hh⟩, fun a hm => ⟨a, sub a hm, rfl, rfl, fun hne => ⟨hne, hh ▸ .refl⟩⟩,
    fun hne => absurd hr hne, fun g hg hlt a hm => ?_⟩
  rw [hn] at hlt
  obtain rfl : l = g := by
    by_contra hne
    rw [getD_modify_of_ne hne] at hlt
    omega
  rw [Workflow.at_iff hs] at hg
  rw [ha, entered_approvals, if_pos hg] at hm
  exact (List.mem_filter.mp hm).2

/-- Entry adds no record; a fanout it enters drops the approvals after it. -/
theorem entry {s1 : PipelineState} {i : Nat}
    (hr : i < s1.workflow.stages.length ∨ s1.approvalReviewers = []) (he : Entry s1 i s' A) :
    Carried R s1 s' := by
  cases he with
  | asked hs =>
    exact entered hs entered_workflow entered_currentHead entered_passedChecks rfl rfl
      entered_attempts
  | unexpanded hs =>
    exact entered hs entered_workflow entered_currentHead entered_passedChecks rfl rfl
      entered_attempts
  | finished =>
    rcases hr with hlt | hr
    · rw [if_pos hlt]
      exact .of_subset rfl rfl (fun _ h => h) (fun _ h => h) (fun hne => absurd rfl hne) rfl
    · split_ifs
      · exact .of_subset rfl rfl (fun _ h => h) (fun _ h => h) (fun hne => absurd rfl hne) rfl
      · exact .of_subset rfl rfl (fun _ h => h) (fun _ h => h) (fun hne => absurd hr hne) rfl

theorem returned {s1 : PipelineState} {t : Nat} {reason : String}
    (hk : s1.workflow.At t (·.isKind .work)) : Carried R s1 (s1.returned t reason) where
  workflow := returned_workflow
  checks c hm := by
    rw [returned_passedChecks] at hm
    exact ⟨List.mem_of_mem_filter hm, returned_currentHead⟩
  approvals a hm := by
    rw [returned_approvals] at hm
    exact ⟨a, List.mem_of_mem_filter hm, rfl, rfl, fun hne => ⟨hne, returned_currentHead ▸ .refl⟩⟩
  collecting hne := absurd returned_approvalReviewers hne
  fanouts g hg hlt := by
    rw [returned_attempts] at hlt
    have hne : t ≠ g := by
      rintro rfl
      obtain ⟨st, hs, hw⟩ := hk
      rw [Workflow.at_iff hs] at hg
      cases WorkflowStage.isKind_unique hg hw
    rw [getD_modify_of_ne hne] at hlt
    exact absurd hlt (lt_irrefl _)

/-- A new head keeps the unbound approvals; a clean rebase takes the bound ones along. -/
theorem newHead (hrec : s.Records) {change : PendingHeadChange} {s1 : PipelineState}
    (hn : NewHead s change s1) (hR : ∀ head patchId, change = .mainAdvanced head patchId false →
      s.patchId = some patchId → s1.currentHead = some head → R s.currentHead s1.currentHead) :
    Carried R s s1 := by
  have hfan : ∀ g, s.attempts.getD g 0 < s1.attempts.getD g 0 → False := by
    intro g hlt
    rw [hn.frame.attempts] at hlt
    exact absurd hlt (lt_irrefl _)
  refine ⟨hn.frame.workflow, ?_, ?_, fun hne => absurd hn.approvalReviewers hne,
    fun g _ hlt => (hfan g hlt).elim⟩
  · cases hn with
    | fresh hne =>
      rw [passedChecks_recordNewHead hrec hne]
      rintro c ⟨⟩
    | kept => rintro c ⟨⟩
  · cases hn with
    | fresh hne =>
      intro a ha
      obtain ⟨ha, hnone⟩ := (mem_approvals_recordNewHead hrec hne).mp ha
      exact ⟨a, ha, rfl, rfl, fun hcon => absurd hnone hcon⟩
    | @kept old head patch hc ho hp hne =>
      intro a ha
      rw [approvals_rebased hrec ho hp] at ha
      obtain ⟨b, hb, rfl⟩ := List.mem_map.mp ha
      refine ⟨b, hb, ?_, ?_, fun hhead => ⟨?_, .single (hR head patch hc hp rfl)⟩⟩
      · split_ifs <;> rfl
      · split_ifs <;> rfl
      · intro hcon
        split_ifs at hhead with hold
        · simp [hcon] at hold
        · exact hhead hcon

theorem headMove (h : s.Live) {change : PendingHeadChange} (hm : HeadMove s change s' A)
    (hR : ∀ head patchId, change = .mainAdvanced head patchId false → s.patchId = some patchId →
      s'.currentHead = some head → R s.currentHead s'.currentHead) : Carried R s s' := by
  have hlen := h.index_lt
  have hrec := h.ready.records
  cases hm with
  | ignored => exact .refl
  | recorded hn => exact newHead hrec hn hR
  | rechecked hn ht _ _ _ he =>
    have hh := he.currentHead
    refine (newHead hrec hn fun head patch hc hp hcur => ?_).trans
      (entry (Or.inl ?_) he)
    · exact hh ▸ hR head patch hc hp (hh.trans hcur)
    · rw [hn.frame.workflow]
      omega
  | returned hc hd ht hs hst =>
    have hk : s.workflow.At _ (·.isKind .work) :=
      ⟨_, hs, WorkflowStage.isKind_work_iff.mpr ⟨_, _, _, hst⟩⟩
    rcases hd with ⟨-, hn⟩ | ⟨-, rfl⟩
    · refine (newHead hrec hn fun head patch hc hp hcur => ?_).trans
        (returned (hn.frame.workflow ▸ hk))
      have := hR head patch hc hp (returned_currentHead.trans hcur)
      rwa [returned_currentHead] at this
    · have hclear : Carried R s s.clearPartial :=
        .of_subset rfl rfl (fun _ h => h) (fun _ h => h) (fun hne => absurd rfl hne) rfl
      exact hclear.trans (returned hk)

theorem failMove {reason : String} (hm : FailMove s reason s' A) : Carried R s s' := by
  cases hm with
  | returned hf htarget ht hs hst =>
    exact returned ⟨_, hs, WorkflowStage.isKind_work_iff.mpr ⟨_, _, _, hst⟩⟩
  | failed => exact .of_subset rfl rfl (fun _ h => h) (fun _ h => h) (fun hne => absurd rfl hne) rfl

/-- A move along one change, whose rebase is in `R`. -/
theorem headStep (h : s.Live) {change : PendingHeadChange} (hm : HeadMove s change s' A)
    (hR : ∀ old new, HeadStep.Rebases ⟨s, change, s'⟩ old new → R old new) : Carried R s s' :=
  headMove h hm fun head patch hc hp hh => hR _ _ ⟨head, patch, hc, hp, rfl, rfl, hh⟩

/-- The fold over the pending changes carries the records along every rebase it makes. -/
theorem applyPending (so : s.workflow.Sound) (h : s.Inv) (hp : s.pendingHeadChanges = [])
    (changes : List PendingHeadChange) {last : List PipelineAction}
    (happ : applyPending changes last s = .ok (s', A))
    (hR : ∀ x ∈ headSteps changes s, ∀ old new, x.Rebases old new → R old new) :
    Carried R s s' := by
  induction changes generalizing s last with
  | nil =>
    cases happ
    exact .refl
  | cons change rest ih =>
    by_cases hr : s.status = .running
    · have hl := h.live_of_running hr
      obtain ⟨s1, B, hstep, hm⟩ := hl.applyHeadChange so change
      obtain ⟨hinv, hp1⟩ := hm.inv so hl hp
      simp only [PipelineState.applyPending, hstep] at happ
      simp only [headSteps, hstep, List.forall_mem_cons] at hR
      have hfirst : Carried R s s1 := headStep hl hm hR.1
      exact hfirst.trans (ih (hm.workflow ▸ so) hinv hp1 happ hR.2)
    · have hsame : s.applyHeadChange change = .ok (s, []) := by
        simp only [PipelineState.applyHeadChange, hr, ne_eq, not_false_eq_true, if_true]
      simp only [PipelineState.applyPending, hsame, List.isEmpty_nil, if_true] at happ
      simp only [headSteps, hsame, List.forall_mem_cons] at hR
      exact ih so h hp happ hR.2

theorem mergeBack (so : s.workflow.Sound) (h : s.Live) (hm : MergeBack s s' A)
    (hR : ∀ x ∈ headSteps s.pendingHeadChanges { s with pendingHeadChanges := [] },
      ∀ old new, x.Rebases old new → R old new) : Carried R s s' := by
  have hclear : Carried R s { s with pendingHeadChanges := [] } :=
    .of_subset rfl rfl (fun _ h => h) (fun _ h => h) (fun _ => ⟨rfl, rfl⟩) rfl
  have hlen := h.index_lt
  cases hm with
  | moved hf happ =>
    exact hclear.trans (applyPending (s := { s with pendingHeadChanges := [] }) so
      (.live h.clearPending) rfl _ happ hR)
  | repeated ht hb he => exact hclear.trans (entry (Or.inl (lt_of_le_of_lt ht hlen)) he)

/-- The product of work leaves only unbound approvals, and there were no others. -/
theorem takeProduct (product : WorkProduct) (ha : ∀ a ∈ s.approvals, a.head = none)
    (hc : s.passedChecks = []) (hr : s.approvalReviewers = []) :
    Carried R s (s.takeProduct product) where
  workflow := frame_takeProduct.workflow
  checks c hm := by
    rw [passedChecks_takeProduct hc] at hm
    cases hm
  approvals a hm := by
    rw [approvals_takeProduct ha] at hm
    exact ⟨a, hm, rfl, rfl, fun hne => absurd (ha a hm) hne⟩
  collecting hne := by
    refine absurd ?_ hne
    cases product with
    | branch =>
      unfold PipelineState.takeProduct
      simp only
      split_ifs
      · rfl
      · exact hr
    | result => exact hr
    | plan =>
      unfold PipelineState.takeProduct
      simp only
      split_ifs <;> exact hr
  fanouts g _ hlt := by
    rw [frame_takeProduct.attempts] at hlt
    exact absurd hlt (lt_irrefl _)

end Carried

/-- The records of `s'` are carried from `s`, or the event earned them. -/
structure Earned (R : Option String → Option String → Prop) (e : PipelineEvent)
    (s s' : PipelineState) : Prop where
  workflow : s'.workflow = s.workflow
  checks : ∀ c ∈ s'.passedChecks, s'.currentHead = s.currentHead ∧
    (c ∈ s.passedChecks ∨ ∃ n, e = .commandFinished c.stageId n s.currentHead (some 0))
  approvals : ∀ a ∈ s'.approvals,
    (∃ b ∈ s.approvals, b.stageId = a.stageId ∧ b.reviewers = a.reviewers ∧
      (a.head ≠ none → b.head ≠ none ∧ ReflTransGen R s.currentHead s'.currentHead)) ∨
    s'.currentHead = s.currentHead ∧
      ∃ st, s.workflow.stages[s.stageIndex]? = some st ∧ st.id = a.stageId ∧
        ∀ r ∈ a.reviewers, r ∈ s.approvalReviewers ∨ ∃ n head child,
          e = .approvalGranted st.id n r head child ∧
            (st.isBoundApproval = true → head = s.currentHead)
  collecting : s'.approvalReviewers ≠ [] → s'.stageIndex = s.stageIndex ∧
    s'.currentHead = s.currentHead ∧ s'.attempts = s.attempts ∧
    ∃ st, s.workflow.stages[s.stageIndex]? = some st ∧
      ∀ r ∈ s'.approvalReviewers, r ∈ s.approvalReviewers ∨ ∃ n head child,
        e = .approvalGranted st.id n r head child ∧
          (st.isBoundApproval = true → head = s.currentHead)
  fanouts : ∀ g, s.workflow.At g (·.isKind .fanout) →
    s.attempts.getD g 0 < s'.attempts.getD g 0 →
    ∀ a ∈ s'.approvals, s.recordedBefore g a.stageId = true

namespace Earned

theorem of_carried (h : Carried R s s')
    (hl : s.approvalReviewers ≠ [] → ∃ st, s.workflow.stages[s.stageIndex]? = some st) :
    Earned R e s s' where
  workflow := h.workflow
  checks c hc := ⟨(h.checks c hc).2, Or.inl (h.checks c hc).1⟩
  approvals a ha := Or.inl (h.approvals a ha)
  collecting hne := by
    obtain ⟨hr, hi, hh, hn⟩ := h.collecting hne
    obtain ⟨st, hs⟩ := hl (hr ▸ hne)
    exact ⟨hi, hh, hn, st, hs, fun r hm => Or.inl (hr ▸ hm)⟩
  fanouts := h.fanouts

/-- What was earned is carried into the next stage. -/
theorem enterStage {s1 : PipelineState} {i : Nat} (he : s1.enterStage i = .ok (s', A))
    (h : Earned R e s s1) (hn : s1.attempts = s.attempts) (hr : s1.approvalReviewers = []) :
    Earned R e s s' := by
  have hE := enterStage_eq_ok_iff.mp he
  have h' : Carried R s1 s' := .entry (Or.inr hr) hE
  have hh := hE.currentHead
  refine ⟨h'.workflow.trans h.workflow, fun c hc => ?_, fun a ha => ?_,
    fun hne => absurd ((h'.collecting hne).1.trans hr) hne, fun g hg hlt a ha => ?_⟩
  · obtain ⟨hc, -⟩ := h'.checks c hc
    obtain ⟨he', hor⟩ := h.checks c hc
    exact ⟨hh.trans he', hor⟩
  · obtain ⟨b, hb, hid, hrev, hhead⟩ := h'.approvals a ha
    rcases h.approvals b hb with ⟨b', hb', hid', hrev', hhead'⟩ | ⟨he', st, hs, hst, hearn⟩
    · refine Or.inl ⟨b', hb', hid'.trans hid, hrev'.trans hrev, fun hne => ?_⟩
      obtain ⟨hne1, hchain⟩ := hhead hne
      obtain ⟨hne2, hchain'⟩ := hhead' hne1
      exact ⟨hne2, hchain'.trans hchain⟩
    · exact Or.inr ⟨hh.trans he', st, hs, hst.trans hid, fun r hm => hearn r (hrev ▸ hm)⟩
  · have := h'.fanouts g (h.workflow ▸ hg) (hn ▸ hlt) a ha
    rwa [recordedBefore, h.workflow] at this

theorem recordPass {st : WorkflowStage} {id : String} {n : Nat} (hc : Current s st id n) :
    Earned R (.commandFinished id n s.currentHead (some 0)) s (s.recordPass id s.currentHead) := by
  have hsame : Earned R (.commandFinished id n s.currentHead (some 0)) s s :=
    of_carried .refl fun _ => ⟨st, hc.stage⟩
  unfold PipelineState.recordPass
  split_ifs
  · exact hsame
  · exact { hsame with
      checks := fun c hm => by
        rcases List.mem_append.mp hm with hm | hm
        · exact hsame.checks c hm
        · rw [List.mem_singleton.mp hm]
          exact ⟨rfl, Or.inr ⟨n, rfl⟩⟩ }

/-- One more reviewer of the current approval. -/
theorem counted {st : WorkflowStage} {id : String} {n : Nat} {reviewer : String}
    {head child : Option String} (hc : Current s st id n)
    (hb : st.isBoundApproval = true → head = s.currentHead) (pick : Option String) :
    Earned R (.approvalGranted id n reviewer head child) s
      { s with pendingPick := pick, approvalReviewers := s.approvalReviewers ++ [reviewer] } where
  workflow := rfl
  checks c hm := ⟨rfl, Or.inl hm⟩
  approvals a hm := Or.inl ⟨a, hm, rfl, rfl, fun hne => ⟨hne, .refl⟩⟩
  collecting _ := by
    refine ⟨rfl, rfl, rfl, st, hc.stage, fun r hm => ?_⟩
    rcases List.mem_append.mp hm with hm | hm
    · exact Or.inl hm
    · rw [List.mem_singleton.mp hm, hc.id]
      exact Or.inr ⟨n, head, child, rfl, hb⟩
  fanouts g _ hlt := absurd hlt (lt_irrefl _)

/-- The reviewers collected so far become the record of the stage. -/
theorem recordApproval {s1 : PipelineState} {st : WorkflowStage} {id : String} {n : Nat}
    {bound : Bool} {head : Option String} (h : Earned R e s s1) (hc : Current s st id n)
    (hi : s1.approvalReviewers ≠ []) (hn : s1.attempts = s.attempts) :
    Earned R e s (s1.recordApproval id bound head) := by
  obtain ⟨-, hh, -, st', hst', hrev⟩ := h.collecting hi
  obtain rfl := Option.some.inj (hst'.symm.trans hc.stage)
  refine ⟨h.workflow, h.checks, fun a hm => ?_, fun hne => absurd rfl hne, fun g _ hlt => ?_⟩
  · rcases List.mem_append.mp hm with hm | hm
    · exact h.approvals a (List.mem_of_mem_filter hm)
    · obtain rfl := List.mem_singleton.mp hm
      exact Or.inr ⟨hh, st', hst', hc.id, hrev⟩
  · exact absurd (hn ▸ hlt : s.attempts.getD g 0 < s.attempts.getD g 0) (lt_irrefl _)

/-- A met approval is earned by its reviewers; what follows only carries it. -/
theorem completeApproval {s1 : PipelineState} {st : WorkflowStage} {id : String} {n : Nat}
    {bound : Bool} {head : Option String} (he : s1.completeApproval id bound head = .ok (s', A))
    (h : Earned R e s s1) (hc : Current s st id n) (hi : s1.approvalReviewers ≠ [])
    (hn : s1.attempts = s.attempts) : Earned R e s s' := by
  have hrec : Earned R e s (s1.recordApproval id bound head) := h.recordApproval hc hi hn
  rcases completeApproval_eq_ok he with ⟨-, hE⟩ | ⟨winner, B, -, -, hE, -⟩
  · exact hrec.enterStage hE hn rfl
  · have hkeep : Earned R e s (keepOnlyWinner
        { s1.recordApproval id bound head with pendingPick := none } winner).1 := { hrec with }
    exact hkeep.enterStage hE hn rfl

end Earned

/-- Only an approval stage collects reviewers. -/
theorem PipelineState.Live.reviewers_eq_nil (h : s.Live) {st : WorkflowStage}
    (hs : s.workflow.stages[s.stageIndex]? = some st) (hk : st.isKind .approval = false) :
    s.approvalReviewers = [] := by
  by_contra hne
  obtain ⟨st', approver, count, bound, hs', hst, -⟩ := h.collecting (Or.inl hne)
  obtain rfl := Option.some.inj (hs.symm.trans hs')
  rw [WorkflowStage.isKind_approval_iff.mpr ⟨_, _, _, hst⟩] at hk
  cases hk

private theorem covers_of_bound {st : WorkflowStage} {approver : Approver} {count : Nat}
    {bound : Bool} {head : Option String} (hst : st.stage = .approval approver count bound)
    (hb : bound = true → s.currentHead.isSome = true ∧ head = s.currentHead) :
    st.isBoundApproval = true → head = s.currentHead := by
  intro h
  obtain ⟨approver', count', hst'⟩ := WorkflowStage.isBoundApproval_iff.mp h
  rw [hst] at hst'
  cases hst'
  exact (hb rfl).2

/-- An accepted event carries the records along the head changes it applies, or earns one. -/
theorem Accepted.earned (so : s.workflow.Sound) (hi : s.Inv) (ha : Accepted s e s' A)
    (hR : ∀ x ∈ appliedChanges s e, ∀ old new, x.Rebases old new → R old new) :
    Earned R e s s' := by
  have stage : ∀ {st : WorkflowStage} {id : String} {n : Nat}, Current s st id n →
      s.approvalReviewers ≠ [] → ∃ st, s.workflow.stages[s.stageIndex]? = some st :=
    fun hc _ => ⟨_, hc.stage⟩
  have none : ∀ {st : WorkflowStage} {id : String} {n : Nat}, Current s st id n →
      st.isKind .approval = false → s.approvalReviewers = [] := fun hc hk =>
    (hi.live_of_running hc.running).reviewers_eq_nil hc.stage hk
  have nothing : s.status = .running → Earned R e s s := fun hr =>
    .of_carried .refl fun _ => (hi.live_of_running hr).stage
  cases ha with
  | start hp hne he =>
    have hs := hi.unchecked_of_pending hp
    have hrev : s.approvalReviewers = [] := by
      rw [hs]
      rfl
    have h0 : Earned R .start s { s with status := .running } :=
      .of_carried (.of_subset rfl rfl (fun _ h => h) (fun _ h => h) (fun _ => ⟨rfl, rfl⟩) rfl)
        fun hne => absurd hrev hne
    exact h0.enterStage he rfl hrev
  | @workCompleted st id n role text output product _ _ hc hst hm he =>
    have hl := hi.live_of_running hc.running
    have hbound := Live.notBound_of_work so hc.stage
      (WorkflowStage.isKind_work_iff.mpr ⟨_, _, _, hst⟩)
    have hrev := none hc (by simp [WorkflowStage.isKind, hst, Stage.kind])
    have h1 : Carried R s (s.takeProduct product) :=
      .takeProduct product (hl.ready.unbound so hbound) (hl.ready.ahead hbound).1 hrev
    have hrev1 : (s.takeProduct product).approvalReviewers = [] := by
      by_contra hne
      exact hne ((h1.collecting hne).1.trans hrev)
    refine .of_carried (h1.trans (Carried.entry (Or.inr hrev1) (enterStage_eq_ok_iff.mp he)))
      (stage hc)
  | submitted hc hst he =>
    have hrev := none hc (by simp [WorkflowStage.isKind, hst, Stage.kind])
    exact Earned.enterStage he { nothing hc.running with } rfl hrev
  | commandPassed hc hst he =>
    have hrev := none hc (by simp [WorkflowStage.isKind, hst, Stage.kind])
    refine (Earned.recordPass hc).enterStage he frame_recordPass.attempts ?_
    unfold recordPass
    split_ifs <;> exact hrev
  | commandFailed hc hst hx he =>
    exact .of_carried (.failMove ((hi.live_of_running hc.running).failMove so he)) (stage hc)
  | approvalCounted hc hst hb hr hp hlt =>
    have hcovers := covers_of_bound hst hb
    rcases choosePick_eq hp with ⟨rfl, -⟩ | ⟨_, -, rfl, -⟩
    · exact .counted hc hcovers _
    · exact .counted hc hcovers _
  | approvalMet hc hst hb hr hp hge he =>
    have hcovers := covers_of_bound hst hb
    rcases choosePick_eq hp with ⟨rfl, -⟩ | ⟨_, -, rfl, -⟩
    · exact .completeApproval he (.counted hc hcovers _) hc (by simp) rfl
    · exact .completeApproval he (.counted hc hcovers _) hc (by simp) rfl
  | changesRequested hc hst hb he =>
    exact .of_carried (.failMove ((hi.live_of_running hc.running).failMove so he)) (stage hc)
  | commitKnown _ hr hs hw hh =>
    split_ifs
    · exact { nothing hr with }
    · exact nothing hr
  | commitDeferred hf hw hh => exact { nothing (exists_stage_of_mergeInFlight hf).1 with }
  | commitCreated hr hs hf hw hh he =>
    have hl := hi.live_of_running hr
    simp only [appliedChanges, hf, Bool.false_eq_true, if_false, headSteps, he,
      List.mem_singleton, forall_eq] at hR
    exact .of_carried (.headStep hl (hl.headMove so he) hR) fun _ => hl.stage
  | advanceDeferred hf hw => exact { nothing (exists_stage_of_mergeInFlight hf).1 with }
  | mainAdvanced hr hs hf hw he =>
    have hl := hi.live_of_running hr
    simp only [appliedChanges, hf, Bool.false_eq_true, if_false, headSteps, he,
      List.mem_singleton, forall_eq] at hR
    exact .of_carried (.headStep hl (hl.headMove so he) hR) fun _ => hl.stage
  | fanoutCompleted hc hst hj hch he =>
    have hrev := none hc (by simp [WorkflowStage.isKind, hst, Stage.kind])
    exact Earned.enterStage he { nothing hc.running with } rfl hrev
  | fanoutFirst hc hst hch hw he =>
    have hrev := none hc (by simp [WorkflowStage.isKind, hst, Stage.kind])
    obtain ⟨B, hE, -⟩ := after_eq_ok_iff.mp he
    exact Earned.enterStage hE { nothing hc.running with } rfl hrev
  | stageFailed hc hf he =>
    exact .of_carried (.failMove ((hi.live_of_running hc.running).failMove so he)) (stage hc)
  | timeoutNotified hc => exact { nothing hc.running with }
  | timeoutReassigned hc hf hac he =>
    have hl := hi.live_of_running hc.running
    obtain ⟨B, hE, -⟩ := after_eq_ok_iff.mp he
    exact .of_carried (.entry (Or.inl hl.index_lt) (enterStage_eq_ok_iff.mp hE)) (stage hc)
  | timeoutCancelled hc hf =>
    exact .of_carried (.of_subset rfl rfl (fun _ h => h) (fun _ h => h) (fun hne => absurd rfl hne) rfl)
      (stage hc)
  | cancelledPending hp =>
    refine .of_carried (.of_subset rfl rfl (fun _ h => h) (fun _ h => h) (fun hne => absurd rfl hne)
      rfl) fun hne => absurd ?_ hne
    rw [hi.unchecked_of_pending hp]
    rfl
  | cancelledRunning hr hs hf =>
    exact .of_carried (.of_subset rfl rfl (fun _ h => h) (fun _ h => h) (fun hne => absurd rfl hne) rfl)
      fun _ => ⟨_, hs⟩
  | mergeFailed hc hst hh he =>
    have hl := hi.live_of_running hc.running
    exact .of_carried (.mergeBack so hl
      (hl.mergeBack so ⟨_, hc.stage, WorkflowStage.isKind_merge_iff.mpr hst⟩ he).2.2 hR) (stage hc)
  | mergeCompleted hc hst hh hg => exact { nothing hc.running with }

/-- A pending change was observed while the merge was in flight. -/
theorem Accepted.pending (so : s.workflow.Sound) (hi : s.Inv) (ha : Accepted s e s' A) :
    ∀ c ∈ s'.pendingHeadChanges, c ∈ s.pendingHeadChanges ∨ e = c.event := by
  have same : s'.pendingHeadChanges = s.pendingHeadChanges →
      ∀ c ∈ s'.pendingHeadChanges, c ∈ s.pendingHeadChanges ∨ e = c.event := by
    intro heq c hc
    exact Or.inl (heq ▸ hc)
  have none : s'.pendingHeadChanges = [] →
      ∀ c ∈ s'.pendingHeadChanges, c ∈ s.pendingHeadChanges ∨ e = c.event := by
    intro heq c hc
    rw [heq] at hc
    cases hc
  have entry : ∀ {s1 : PipelineState} {i : Nat} {B : List PipelineAction},
      s1.enterStage i = .ok (s', B) → s1.pendingHeadChanges = s.pendingHeadChanges →
      ∀ c ∈ s'.pendingHeadChanges, c ∈ s.pendingHeadChanges ∨ e = c.event := fun he heq =>
    same ((enterStage_eq_ok_iff.mp he).pendingHeadChanges.trans heq)
  have fail : ∀ {reason : String}, FailMove s reason s' A →
      ∀ c ∈ s'.pendingHeadChanges, c ∈ s.pendingHeadChanges ∨ e = c.event := by
    intro reason hm
    cases hm with
    | returned => exact same returned_pendingHeadChanges
    | failed => exact same rfl
  cases ha with
  | start hp hne he => exact entry he rfl
  | workCompleted hc hst hm he => exact entry he frame_takeProduct.pendingHeadChanges
  | submitted hc hst he => exact entry he rfl
  | commandPassed hc hst he => exact entry he frame_recordPass.pendingHeadChanges
  | commandFailed hc hst hx he => exact fail ((hi.live_of_running hc.running).failMove so he)
  | approvalCounted hc hst hb hr hp hlt => exact same (frame_choosePick hp).pendingHeadChanges
  | approvalMet hc hst hb hr hp hge he =>
    have hfr := frame_choosePick hp
    rcases completeApproval_eq_ok he with ⟨-, he⟩ | ⟨winner, B, -, -, he, -⟩
    · exact entry he hfr.pendingHeadChanges
    · exact entry he hfr.pendingHeadChanges
  | changesRequested hc hst hb he => exact fail ((hi.live_of_running hc.running).failMove so he)
  | commitKnown _ hr hs hw hh =>
    split_ifs at none same ⊢
    · exact none rfl
    · exact same rfl
  | commitDeferred hf hw hh =>
    intro c hc
    rcases List.mem_append.mp hc with hc | hc
    · exact Or.inl hc
    · rw [List.mem_singleton.mp hc]
      exact Or.inr rfl
  | commitCreated hr hs hf hw hh he =>
    have hl := hi.live_of_running hr
    exact none ((hl.headMove so he).inv so hl (hl.pending_eq_nil hf)).2
  | advanceDeferred hf hw =>
    intro c hc
    rcases List.mem_append.mp hc with hc | hc
    · exact Or.inl hc
    · rw [List.mem_singleton.mp hc]
      exact Or.inr rfl
  | mainAdvanced hr hs hf hw he =>
    have hl := hi.live_of_running hr
    exact none ((hl.headMove so he).inv so hl (hl.pending_eq_nil hf)).2
  | fanoutCompleted hc hst hj hch he => exact entry he rfl
  | fanoutFirst hc hst hch hw he =>
    obtain ⟨B, hE, -⟩ := after_eq_ok_iff.mp he
    exact entry hE rfl
  | stageFailed hc hf he => exact fail ((hi.live_of_running hc.running).failMove so he)
  | timeoutReassigned hc hf hac he =>
    obtain ⟨B, hE, -⟩ := after_eq_ok_iff.mp he
    exact entry hE rfl
  | timeoutNotified | timeoutCancelled | cancelledPending | cancelledRunning => exact same rfl
  | mergeFailed hc hst hh he =>
    exact none ((hi.live_of_running hc.running).mergeBack so
      ⟨_, hc.stage, WorkflowStage.isKind_merge_iff.mpr hst⟩ he).2.1
  | mergeCompleted => exact none rfl

/-- The history shows where each record of the state comes from. -/
structure Backed (history : List PipelineTransition) (s : PipelineState) : Prop where
  checks : ∀ j st, s.workflow.stages[j]? = some st → ∀ c ∈ s.passedChecks, c.stageId = st.id →
    Since (fun t => HeadChanged t ∨ ReturnsTo s.workflow j t) (Passes st.id s.currentHead) history
  approvals : ∀ j st, s.workflow.stages[j]? = some st → ∀ a ∈ s.approvals, a.stageId = st.id →
    ∀ r ∈ a.reviewers, Since (fun t => ReturnsTo s.workflow j t ∨ EntersFanout s.workflow j t)
      (Grants st.id r fun given => a.head ≠ none →
        ReflTransGen (Rebased history) given s.currentHead) history
  collecting : ∀ st, s.workflow.stages[s.stageIndex]? = some st → ∀ r ∈ s.approvalReviewers,
    Since (fun t => ReturnsTo s.workflow s.stageIndex t ∨ EntersFanout s.workflow s.stageIndex t)
      (Grants st.id r fun given => st.isBoundApproval = true → given = s.currentHead) history
  pending : ∀ c ∈ s.pendingHeadChanges, ∃ t ∈ history, t.event = c.event

theorem mem_of_headSteps {changes : List PendingHeadChange} {x : HeadStep}
    (h : x ∈ headSteps changes s) : x.change ∈ changes := by
  induction changes generalizing s with
  | nil => cases h
  | cons change rest ih =>
    unfold headSteps at h
    split at h
    · cases h
    · rcases List.mem_cons.mp h with rfl | h
      · exact List.mem_cons_self
      · exact List.mem_cons_of_mem _ (ih h)

/-- A rebase that a step applies was observed by then. -/
theorem Backed.observed {history : List PipelineTransition} (h : Backed history s) :
    ∀ x ∈ appliedChanges s e, ∀ old new, x.Rebases old new →
      Rebased (⟨s, e, s', A⟩ :: history) old new := by
  intro x hx old new hreb
  refine ⟨_, List.mem_cons_self, x, hx, hreb, ?_⟩
  have single : ∀ {change : PendingHeadChange}, x ∈ headSteps [change] s →
      x.change = change := fun hm => List.mem_singleton.mp (mem_of_headSteps hm)
  cases e with
  | commitCreated head patch =>
    simp only [appliedChanges] at hx
    split_ifs at hx
    · cases hx
    · exact ⟨_, List.mem_cons_self, by rw [single hx]; rfl⟩
  | mainAdvanced head patch conflict =>
    simp only [appliedChanges] at hx
    split_ifs at hx
    · cases hx
    · exact ⟨_, List.mem_cons_self, by rw [single hx]; rfl⟩
  | mergeFailed =>
    obtain ⟨t, ht, he⟩ := h.pending _ (mem_of_headSteps hx)
    exact ⟨t, List.mem_cons_of_mem _ ht, he⟩
  | _ => cases hx

theorem Rebased.cons {history : List PipelineTransition} {t : PipelineTransition}
    {old new : Option String} (h : Rebased history old new) : Rebased (t :: history) old new := by
  obtain ⟨t1, h1, x, hx, hreb, t2, h2, he⟩ := h
  exact ⟨t1, List.mem_cons_of_mem _ h1, x, hx, hreb, t2, List.mem_cons_of_mem _ h2, he⟩

/-- After a step that returned the task to work, no record from there on is left. -/
theorem ReturnsTo.clears (hi : Invariant taskId w s) (hs : step s e = .ok (s', A)) {j : Nat}
    {st : WorkflowStage} (hst : s'.workflow.stages[j]? = some st)
    (h : ReturnsTo s'.workflow j ⟨s, e, s', A⟩) :
    s'.passedChecks = [] ∧ s'.approvalReviewers = [] ∧ ∀ a ∈ s'.approvals, a.stageId ≠ st.id := by
  obtain ⟨id, n, role, reason, hout, k, hk, sk, hsk, hid⟩ := h
  obtain ⟨hl, hmem⟩ := live_of_request hi hs hout (by simp [PipelineAction.identity])
  have so := (hi.step hs).sound
  obtain ⟨-, -, sw, hsw, hid', hwork⟩ := hl.owing so hmem
  have hat : k = s'.stageIndex := so.ids _ _ _ _ hsk hsw (hid.trans hid'.symm)
  obtain ⟨hc, ha⟩ := hl.ready.ahead (Live.notBound_of_work so hsw hwork)
  refine ⟨hc, hl.reviewers_eq_nil hsw ?_, fun a hm heq => ?_⟩
  · rw [Bool.eq_false_iff]
    intro hcon
    cases WorkflowStage.isKind_unique hwork hcon
  · have := ha a hm
    rw [heq, recordedBefore_iff so.toShape hst] at this
    omega

theorem Backed.step {history : List PipelineTransition} (hi : Invariant taskId w s)
    (h : Backed history s) (hs : step s e = .ok (s', A)) :
    Backed (⟨s, e, s', A⟩ :: history) s' := by
  have hacc := step_eq_ok_iff.mp hs
  have so := (hi.step hs).sound
  have hE : Earned (Rebased (⟨s, e, s', A⟩ :: history)) e s s' :=
    hacc.earned hi.sound hi.inv h.observed
  have hw := hE.workflow
  have cons : ∀ {given head : Option String}, ReflTransGen (Rebased history) given head →
      ReflTransGen (Rebased (⟨s, e, s', A⟩ :: history)) given head :=
    fun hc => ReflTransGen.mono (fun _ _ => Rebased.cons) _ _ hc
  have fanout : ∀ {j : Nat} {st : WorkflowStage}, s'.workflow.stages[j]? = some st →
      ∀ a ∈ s'.approvals, a.stageId = st.id →
        ¬ EntersFanout s'.workflow j ⟨s, e, s', A⟩ := by
    rintro j st hst a hm hid ⟨g, hg, hfan, hlt⟩
    have := hE.fanouts g (hw ▸ hfan) hlt a hm
    rw [hid, recordedBefore_iff (hw ▸ so).toShape (hw ▸ hst)] at this
    omega
  refine ⟨fun j st hst c hc hid => ⟨?_, ?_⟩, fun j st hst a ha hid r hr => ⟨?_, ?_⟩,
    fun st hst r hr => ⟨?_, ?_⟩, fun c hc => ?_⟩
  · rintro (hhead | hret)
    · exact hhead (hE.checks c hc).1
    · rw [(hret.clears hi hs hst).1] at hc
      cases hc
  · obtain ⟨hh, hold | ⟨n, he⟩⟩ := hE.checks c hc
    · rw [hw] at hst ⊢
      rw [hh]
      exact Or.inr (h.checks j st hst c hold hid)
    · exact Or.inl ⟨n, by rw [hh, ← hid]; exact he⟩
  · rintro (hret | hfan)
    · exact (hret.clears hi hs hst).2.2 a ha hid
    · exact fanout hst a ha hid hfan
  · rcases hE.approvals a ha with ⟨b, hb, hbid, hrev, hhead⟩ | ⟨hh, sc, hsc, hscid, hearn⟩
    · rw [hw] at hst ⊢
      refine Or.inr ((h.approvals j st hst b hb (hbid.trans hid) r (hrev ▸ hr)).mono ?_)
      rintro t ⟨n, head, child, he, hcov⟩
      refine ⟨n, head, child, he, fun hne => ?_⟩
      obtain ⟨hne', hchain⟩ := hhead hne
      exact (cons (hcov hne')).trans hchain
    · rw [hw] at hst ⊢
      obtain rfl := hi.sound.ids _ _ _ _ hsc hst (hscid.trans hid)
      obtain rfl := Option.some.inj (hsc.symm.trans hst)
      have hbound : a.head ≠ none → sc.isBoundApproval = true := by
        obtain ⟨i, si, hsi, hsid, -, hiff⟩ := (hi.step hs).inv.records.stage_of_mem ha
        rw [hw] at hsi
        obtain rfl := hi.sound.ids _ _ _ _ hsi hsc (hsid.trans hid)
        obtain rfl := Option.some.inj (hsi.symm.trans hsc)
        exact hiff.mpr
      rw [hh]
      rcases hearn r hr with hold | ⟨n, head, child, he, hcov⟩
      · refine Or.inr ((h.collecting sc hsc r hold).mono ?_)
        rintro t ⟨n, head, child, he, hcov⟩
        exact ⟨n, head, child, he, fun hne => hcov (hbound hne) ▸ .refl⟩
      · exact Or.inl ⟨n, head, child, he, fun hne => hcov (hbound hne) ▸ .refl⟩
  · rintro (hret | ⟨g, -, -, hlt⟩)
    · rw [(hret.clears hi hs hst).2.1] at hr
      cases hr
    · rw [(hE.collecting (List.ne_nil_of_mem hr)).2.2.1] at hlt
      exact absurd hlt (lt_irrefl _)
  · obtain ⟨hidx, hh, -, sc, hsc, hearn⟩ := hE.collecting (List.ne_nil_of_mem hr)
    rw [hw, hidx] at hst
    obtain rfl := Option.some.inj (hsc.symm.trans hst)
    rw [hw, hidx, hh]
    rcases hearn r hr with hold | ⟨n, head, child, he, hcov⟩
    · exact Or.inr (h.collecting sc hsc r hold)
    · exact Or.inl ⟨n, head, child, he, hcov⟩
  · rcases hacc.pending hi.sound hi.inv c hc with hold | he
    · obtain ⟨t, ht, he⟩ := h.pending c hold
      exact ⟨t, List.mem_cons_of_mem _ ht, he⟩
    · exact ⟨_, List.mem_cons_self, he⟩

theorem backed_of_run {history : List PipelineTransition}
    (hr : (pipeline taskId w).Run history s) : Backed history s := by
  induction hr with
  | start hs =>
    rw [hs]
    exact ⟨by rintro j st - c ⟨⟩, by rintro j st - a ⟨⟩, by rintro st - r ⟨⟩, by rintro c ⟨⟩⟩
  | snoc hr hs ih => exact ih.step (invariant_of_reachable hr.reachable) hs

/-- What stage entry relies on before `m` has its evidence in the history. -/
theorem PipelineState.Ready.authorised {history : List PipelineTransition}
    (so : s.workflow.Sound) (hb : Backed history s) {m : Nat} (h : s.Ready m) :
    Authorised s.workflow history s.currentHead m where
  checks j hj st hs hk := by
    obtain ⟨c, hc, hid⟩ := h.passed j st hj hs hk
    exact hb.checks j st hs c hc hid
  approvals j hj st approver count bound hs hst := by
    obtain ⟨a, ha, hid⟩ := h.approved j st hj hs (WorkflowStage.isKind_approval_iff.mpr ⟨_, _, _, hst⟩)
    have same : ∀ {i : Nat} {si : WorkflowStage}, s.workflow.stages[i]? = some si →
        si.id = a.stageId → si = st := by
      intro i si hsi hsid
      obtain rfl := so.ids _ _ _ _ hsi hs (hsid.trans hid)
      exact Option.some.inj (hsi.symm.trans hs)
    have evidence := hb.approvals j st hs a ha hid
    cases h.records.approvals a ha with
    | bound hsi hsid hsti hn hh hsome hp =>
      obtain rfl := same hsi hsid
      obtain ⟨-, rfl, rfl⟩ := Stage.approval.inj (hsti.symm.trans hst)
      refine ⟨a.reviewers, hn, le_rfl, fun r hr => (evidence r hr).mono fun t ht => ?_⟩
      obtain ⟨n, head, child, he, hcov⟩ := ht
      refine ⟨n, head, child, he, fun _ => hcov ?_⟩
      rw [hh]
      exact Option.isSome_iff_ne_none.mp hsome
    | unbound hsi hsid hsti hn hh hp =>
      obtain rfl := same hsi hsid
      obtain ⟨-, rfl, rfl⟩ := Stage.approval.inj (hsti.symm.trans hst)
      refine ⟨a.reviewers, hn, le_rfl, fun r hr => (evidence r hr).mono fun t ht => ?_⟩
      obtain ⟨n, head, child, he, -⟩ := ht
      exact ⟨n, head, child, he, by rintro ⟨⟩⟩

theorem stage_of_requestOf_merge {i n m : Nat} {st : WorkflowStage} {id head : String}
    (h : s.requestOf i st n = some (.merge id m head)) :
    st.stage = .merge ∧ s.currentHead = some head := by
  unfold requestOf at h
  split at h
  · cases h
  · cases h
  · split at h <;> cases h
  · cases h
  · rename_i hst
    obtain ⟨head', hh, he⟩ := Option.map_eq_some_iff.mp h
    cases he
    exact ⟨hst, hh⟩
  · cases h

/-- Whatever is merged, or done without a merge stage, was checked and approved: every check passed
for this very head, every approval has enough reviewers, and nothing since took either back. -/
theorem merge_authorised {history : List PipelineTransition}
    (hr : (pipeline taskId w).Run history s) :
    (∀ t ∈ history.head?, ∀ id n head, .merge id n head ∈ t.output →
      s.currentHead = some head ∧ ∀ m, w.workflow.At m (·.isKind .merge) →
        Authorised w.workflow history (some head) m) ∧
    (s.status = .done → (¬ ∃ m, w.workflow.At m (·.isKind .merge)) →
      Authorised w.workflow history s.currentHead w.workflow.stages.length) := by
  have hb := backed_of_run hr
  have hi := invariant_of_reachable hr.reachable
  refine ⟨fun t ht id n head hm => ?_, fun hdone hno => ?_⟩
  · cases hr with
    | start => cases ht
    | snoc hr hs =>
      obtain rfl := Option.some.inj ht
      obtain ⟨hl, hmem⟩ := live_of_request (invariant_of_reachable hr.reachable) hs hm
        (by simp [PipelineAction.identity])
      obtain ⟨st, action, hst, hreq, hor⟩ := hl.exists_requestOf hi.sound hmem
      obtain rfl : action = .merge id n head := by
        rcases hor with h | h
        · cases h
        · unfold withReason at h
          split at h
          · cases h
          · exact h.symm
      obtain ⟨hmerge, hhead⟩ := stage_of_requestOf_merge hreq
      refine ⟨hhead, fun m hat => ?_⟩
      have hlast := w.sound.mergeLast m hat
      have hlast' := hi.sound.mergeLast _ ⟨st, hst, WorkflowStage.isKind_merge_iff.mpr hmerge⟩
      rw [hi.workflow] at hlast'
      obtain rfl : m = s.stageIndex := by omega
      have := hl.ready.authorised hi.sound hb
      rwa [hi.workflow, hhead] at this
  · have hfin := hi.inv.finished_of_done hdone
    have := hfin.ready.authorised hi.sound hb
    rwa [hi.workflow] at this

/-- A clean rebase waits for a failed merge; the review moves along, and the check runs again
before the new head is merged. -/
theorem merge_authorised_builtin : ∃ history,
    Authorised .builtinCode history (some "h'") 4 ∧
      (.merge "merge" 2 "h'") ∈ emitted (scripted .builtinCode [.start,
        .workCompleted "work" 1 (.branch "b" "h" "p"), .submitted "submit" 1 none,
        .commandFinished "checks" 1 (some "h") (some 0),
        .approvalGranted "review" 1 "ann" (some "h") none, .mainAdvanced "h'" "p" false,
        .mergeFailed "merge" 1 "h" "behind"]) (.commandFinished "checks" 2 (some "h'") (some 0)) := by
  obtain ⟨history, hr, -⟩ := run_scripted .builtinCode [.start,
    .workCompleted "work" 1 (.branch "b" "h" "p"), .submitted "submit" 1 none,
    .commandFinished "checks" 1 (some "h") (some 0),
    .approvalGranted "review" 1 "ann" (some "h") none, .mainAdvanced "h'" "p" false,
    .mergeFailed "merge" 1 "h" "behind"]
  have hr' := run_deliver hr (e := .commandFinished "checks" 2 (some "h'") (some 0))
    (by decide +kernel)
  have hm : (.merge "merge" 2 "h'") ∈ emitted (scripted .builtinCode [.start,
      .workCompleted "work" 1 (.branch "b" "h" "p"), .submitted "submit" 1 none,
      .commandFinished "checks" 1 (some "h") (some 0),
      .approvalGranted "review" 1 "ann" (some "h") none, .mainAdvanced "h'" "p" false,
      .mergeFailed "merge" 1 "h" "behind"]) (.commandFinished "checks" 2 (some "h'") (some 0)) := by
    decide +kernel
  refine ⟨_, ((merge_authorised hr').1 _ rfl "merge" 2 "h'" hm).2 4 ?_, hm⟩
  exact Workflow.any_getElem?_iff.mp (by decide +kernel)

end Agend.Pipeline
