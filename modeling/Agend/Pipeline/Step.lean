import Agend.Pipeline.Enter
import Agend.Pipeline.Operations

/-! Every way `step` accepts an event, said once: the guards that passed and the operation that
produced the new state. -/
namespace Agend.Pipeline

open PipelineState

/-- The event names the running stage and its attempt. -/
structure Current (s : PipelineState) (st : WorkflowStage) (stageId : String) (attempt : Nat) :
    Prop where
  running : s.status = .running
  stage : s.workflow.stages[s.stageIndex]? = some st
  id : st.id = stageId
  attempt : s.attempt = attempt

/-- The children a fanout result may name. -/
def childrenOk (children : List String) : Bool :=
  !(children.isEmpty || children.any (·.isEmpty) || hasDuplicate children)

inductive Accepted (s : PipelineState) :
    PipelineEvent → PipelineState → List PipelineAction → Prop
  | start {s' A} (hp : s.status = .pending) (hne : s.workflow.stages ≠ [])
      (h : enterStage { s with status := .running } 0 = .ok (s', A)) : Accepted s .start s' A
  | workCompleted {st id n role text output product s' A} (hc : Current s st id n)
      (hst : st.stage = .work role text output) (hm : productMatches output product = true)
      (h : (s.takeProduct product).enterStage (s.stageIndex + 1) = .ok (s', A)) :
      Accepted s (.workCompleted id n product) s' A
  | submitted {st id n forge change s' A} (hc : Current s st id n)
      (hst : st.stage = .submit forge)
      (h : enterStage { s with changeId := change } (s.stageIndex + 1) = .ok (s', A)) :
      Accepted s (.submitted id n change) s' A
  | commandPassed {st id n command s' A} (hc : Current s st id n)
      (hst : st.stage = .command command)
      (h : (s.recordPass id s.currentHead).enterStage (s.stageIndex + 1) = .ok (s', A)) :
      Accepted s (.commandFinished id n s.currentHead (some 0)) s' A
  | commandFailed {st id n command code s' A} (hc : Current s st id n)
      (hst : st.stage = .command command) (hx : code ≠ some 0)
      (h : s.failStage s.stageIndex (commandFailure id code) = .ok (s', A)) :
      Accepted s (.commandFinished id n s.currentHead code) s' A
  | approvalCounted {st id n approver count bound reviewer head child next}
      (hc : Current s st id n) (hst : st.stage = .approval approver count bound)
      (hb : bound = true → s.currentHead.isSome = true ∧ head = s.currentHead)
      (hr : reviewer ∉ s.approvalReviewers) (hp : s.choosePick child = .ok next)
      (hlt : s.approvalReviewers.length + 1 < count) :
      Accepted s (.approvalGranted id n reviewer head child)
        { next with approvalReviewers := s.approvalReviewers ++ [reviewer] } []
  | approvalMet {st id n approver count bound reviewer head child next s' A}
      (hc : Current s st id n) (hst : st.stage = .approval approver count bound)
      (hb : bound = true → s.currentHead.isSome = true ∧ head = s.currentHead)
      (hr : reviewer ∉ s.approvalReviewers) (hp : s.choosePick child = .ok next)
      (hge : count ≤ s.approvalReviewers.length + 1)
      (h : completeApproval { next with approvalReviewers := s.approvalReviewers ++ [reviewer] }
        id bound head = .ok (s', A)) :
      Accepted s (.approvalGranted id n reviewer head child) s' A
  | changesRequested {st id n approver count bound reviewer head reason s' A}
      (hc : Current s st id n) (hst : st.stage = .approval approver count bound)
      (hb : bound = true → s.currentHead.isSome = true ∧ head = s.currentHead)
      (h : s.failStage s.stageIndex s!"changes requested by {reviewer}: {reason}" = .ok (s', A)) :
      Accepted s (.changesRequested id n reviewer head reason) s' A
  | commitKnown {st head} (patch) (hr : s.status = .running)
      (hs : s.workflow.stages[s.stageIndex]? = some st)
      (hw : s.workflow.stages.any (·.isBranchWork) = true) (hh : s.currentHead = some head) :
      Accepted s (.commitCreated head patch)
        (if s.mergeInFlight then { s with pendingHeadChanges := [] } else s) []
  | commitDeferred {head patch} (hf : s.mergeInFlight = true)
      (hw : s.workflow.stages.any (·.isBranchWork) = true) (hh : s.currentHead ≠ some head) :
      Accepted s (.commitCreated head patch)
        { s with pendingHeadChanges := s.pendingHeadChanges ++ [.commitCreated head patch] } []
  | commitCreated {st head patch s' A} (hr : s.status = .running)
      (hs : s.workflow.stages[s.stageIndex]? = some st) (hf : s.mergeInFlight = false)
      (hw : s.workflow.stages.any (·.isBranchWork) = true) (hh : s.currentHead ≠ some head)
      (h : s.applyHeadChange (.commitCreated head patch) = .ok (s', A)) :
      Accepted s (.commitCreated head patch) s' A
  | advanceDeferred {head patch conflict} (hf : s.mergeInFlight = true)
      (hw : s.workflow.stages.any (·.isKind .merge) = true) :
      Accepted s (.mainAdvanced head patch conflict)
        { s with pendingHeadChanges :=
          s.pendingHeadChanges ++ [.mainAdvanced head patch conflict] } []
  | mainAdvanced {st head patch conflict s' A} (hr : s.status = .running)
      (hs : s.workflow.stages[s.stageIndex]? = some st) (hf : s.mergeInFlight = false)
      (hw : s.workflow.stages.any (·.isKind .merge) = true)
      (h : s.applyHeadChange (.mainAdvanced head patch conflict) = .ok (s', A)) :
      Accepted s (.mainAdvanced head patch conflict) s' A
  | fanoutCompleted {st id n source join children s' A} (hc : Current s st id n)
      (hst : st.stage = .fanout source join) (hj : join ≠ .first)
      (hch : childrenOk children = true)
      (h : enterStage { s with selectedFanoutChild := none, fanoutChildTaskIds := children }
        (s.stageIndex + 1) = .ok (s', A)) :
      Accepted s (.fanoutCompleted id n children none) s' A
  | fanoutFirst {st id n source children winner s' A} (hc : Current s st id n)
      (hst : st.stage = .fanout source .first) (hch : childrenOk children = true)
      (hw : winner ∈ children)
      (h : Outcome.after
        (keepOnlyWinner { s with selectedFanoutChild := none, fanoutChildTaskIds := children }
          winner).2
        (enterStage (keepOnlyWinner
          { s with selectedFanoutChild := none, fanoutChildTaskIds := children } winner).1
          (s.stageIndex + 1)) = .ok (s', A)) :
      Accepted s (.fanoutCompleted id n children (some winner)) s' A
  | stageFailed {st id n reason s' A} (hc : Current s st id n) (hf : s.mergeInFlight = false)
      (h : s.failStage s.stageIndex reason = .ok (s', A)) :
      Accepted s (.stageFailed id n reason) s' A
  | timeoutNotified {st id n} (hc : Current s st id n) (hf : s.mergeInFlight = false)
      (ha : st.effectiveTimeoutAction = .notify)
      (hn : s.notifiedTimeout ≠ some (s.stageIndex, s.attempt)) :
      Accepted s (.stageTimedOut id n)
        { s with notifiedTimeout := some (s.stageIndex, s.attempt) } [.notifyTimeout id]
  | timeoutReassigned {st id n s' A} (hc : Current s st id n) (hf : s.mergeInFlight = false)
      (ha : st.effectiveTimeoutAction = .reassign)
      (h : (s.enterStage s.stageIndex).after [.reassignStage id] = .ok (s', A)) :
      Accepted s (.stageTimedOut id n) s' A
  | timeoutCancelled {st id n} (hc : Current s st id n) (hf : s.mergeInFlight = false)
      (ha : st.effectiveTimeoutAction = .cancel) :
      Accepted s (.stageTimedOut id n) (s.cancelTask (some id) s!"stage `{id}` timed out").1
        (s.cancelTask (some id) s!"stage `{id}` timed out").2
  | cancelledPending {reason} (hp : s.status = .pending) :
      Accepted s (.cancel reason) (s.cancelTask none reason).1 (s.cancelTask none reason).2
  | cancelledRunning {st reason} (hr : s.status = .running)
      (hs : s.workflow.stages[s.stageIndex]? = some st) (hf : s.mergeInFlight = false) :
      Accepted s (.cancel reason) (s.cancelTask (some st.id) reason).1
        (s.cancelTask (some st.id) reason).2
  | mergeFailed {st id n head reason s' A} (hc : Current s st id n) (hst : st.stage = .merge)
      (hh : s.currentHead = some head) (h : s.mergeFailed = .ok (s', A)) :
      Accepted s (.mergeFailed id n head reason) s' A
  | mergeCompleted {st id n head commit} (hc : Current s st id n) (hst : st.stage = .merge)
      (hh : s.currentHead = some head) (hg : (s.mergeGate s.stageIndex).allowed = true) :
      Accepted s (.mergeCompleted id n head commit)
        { s with mergeCommit := some commit, pendingHeadChanges := [], status := .done }
        [.taskDone (some commit)]

namespace PipelineState

variable {s : PipelineState}

theorem atKind_eq {kind : StageKind} {st : WorkflowStage}
    (hs : s.workflow.stages[s.stageIndex]? = some st) : s.atKind kind = st.isKind kind := by
  simp [atKind, currentStage, hs]

theorem mergeInFlight_iff {st : WorkflowStage} (hr : s.status = .running)
    (hs : s.workflow.stages[s.stageIndex]? = some st) :
    s.mergeInFlight = true ↔ st.stage = .merge := by
  simp [mergeInFlight, hr, atKind_eq hs, WorkflowStage.isKind_merge_iff]

theorem exists_stage_of_mergeInFlight (h : s.mergeInFlight = true) :
    s.status = .running ∧ ∃ st, s.workflow.stages[s.stageIndex]? = some st ∧ st.stage = .merge := by
  simp only [mergeInFlight, Bool.and_eq_true, decide_eq_true_eq, atKind, currentStage,
    Option.any_eq_true, WorkflowStage.isKind_merge_iff] at h
  exact ⟨h.1, h.2⟩

theorem ensureRunning_eq_ok_iff : s.ensureRunning = .ok () ↔
    s.status = .running ∧ ∃ st, s.workflow.stages[s.stageIndex]? = some st := by
  unfold ensureRunning currentStage
  cases hs : s.workflow.stages[s.stageIndex]? <;> by_cases hr : s.status = .running <;>
    simp [hr]

theorem checkIdentity_eq_ok_iff {id : String} {n : Nat} {head : Option (Option String)} :
    s.checkIdentity ⟨id, n, head⟩ = .ok () ↔
      ∃ st, Current s st id n ∧ (st.needsHead = true → ∀ h ∈ head, h = s.currentHead) := by
  unfold checkIdentity
  cases hr : s.ensureRunning with
  | error e =>
    simp only [reduceCtorEq, false_iff, not_exists, not_and]
    intro st hc
    have := ensureRunning_eq_ok_iff.mpr ⟨hc.running, st, hc.stage⟩
    rw [hr] at this
    cases this
  | ok u =>
    obtain ⟨hrun, st, hs⟩ := ensureRunning_eq_ok_iff.mp hr
    simp only [currentStage, hs]
    constructor
    · intro h
      split_ifs at h with h1 h2
      · simp only [Bool.or_eq_true, decide_eq_true_eq, not_or, Decidable.not_not] at h1
        refine ⟨st, ⟨hrun, hs, h1.1, h1.2⟩, fun hn x hx => ?_⟩
        rw [Option.mem_def] at hx
        simpa [hn, hx] using h2
    · rintro ⟨st', hc, hh⟩
      obtain rfl : st = st' := Option.some.inj (hs.symm.trans hc.stage)
      rw [if_neg (by simp [hc.id, hc.attempt]), if_neg]
      simp only [Bool.and_eq_true, Option.any_eq_true, decide_eq_true_eq, not_and, not_exists,
        Decidable.not_not]
      exact fun hn x hx => hh hn x hx

theorem ensureCurrentStage_eq_ok_iff {kind : StageKind} {st : WorkflowStage}
    (hr : s.status = .running) (hs : s.workflow.stages[s.stageIndex]? = some st) :
    s.ensureCurrentStage kind = .ok () ↔ st.isKind kind = true := by
  simp [ensureCurrentStage, ensureRunning_eq_ok_iff.mpr ⟨hr, st, hs⟩, atKind_eq hs]

theorem currentApproval_eq_ok_iff {st : WorkflowStage} {bound : Bool} {count : Nat}
    (hr : s.status = .running) (hs : s.workflow.stages[s.stageIndex]? = some st) :
    s.currentApproval = .ok (bound, count) ↔
      (∃ approver, st.stage = .approval approver count bound) ∧
        (bound = true → s.currentHead.isSome = true) := by
  unfold currentApproval
  by_cases hk : st.isKind .approval = true
  · obtain ⟨approver, n, b, hst⟩ := WorkflowStage.isKind_approval_iff.mp hk
    rw [(ensureCurrentStage_eq_ok_iff hr hs).mpr hk]
    cases hh : s.currentHead <;> cases b <;> simp [currentStage, hs, hst, and_comm, eq_comm]
    all_goals aesop
  · have he : s.ensureCurrentStage .approval ≠ .ok () := fun h =>
      hk ((ensureCurrentStage_eq_ok_iff hr hs).mp h)
    cases h : s.ensureCurrentStage .approval with
    | ok u => exact absurd h he
    | error e =>
      simp only [reduceCtorEq, false_iff, not_and, forall_exists_index]
      intro approver hst
      exact absurd (WorkflowStage.isKind_approval_iff.mpr ⟨_, _, _, hst⟩) hk

end PipelineState

/-- A result passes the in-flight rule and the staleness rule, then reaches its handler. -/
private theorem step_result_iff {s : PipelineState} {e : PipelineEvent} {id : String} {n : Nat}
    {head : Option (Option String)} {r : PipelineState × List PipelineAction}
    (hi : e.identity = some ⟨id, n, head⟩) :
    step s e = .ok r ↔ (s.mergeInFlight = true → e.answersMerge = true) ∧
      (∃ st, Current s st id n ∧ (st.needsHead = true → ∀ h ∈ head, h = s.currentHead)) ∧
      s.handle e = .ok r := by
  rw [← checkIdentity_eq_ok_iff]
  unfold step
  cases hf : s.mergeInFlight <;> cases ha : e.answersMerge <;>
    cases hc : s.checkIdentity ⟨id, n, head⟩ <;> simp [hi, hc]

private theorem step_observation_iff {s : PipelineState} {e : PipelineEvent}
    {r : PipelineState × List PipelineAction} (hi : e.identity = none) :
    step s e = .ok r ↔ (s.mergeInFlight = true → e.answersMerge = true) ∧
      s.handle e = .ok r := by
  unfold step
  cases hf : s.mergeInFlight <;> cases ha : e.answersMerge <;> simp [hi]

theorem not_inFlight_of_current {s : PipelineState} {st : WorkflowStage} {id : String}
    {n : Nat} (hc : Current s st id n) (hm : st.stage ≠ .merge) : s.mergeInFlight = false := by
  rw [Bool.eq_false_iff]
  exact fun h => hm ((mergeInFlight_iff hc.running hc.stage).mp h)

private theorem passes_of_not_inFlight {s : PipelineState} {st : WorkflowStage} {id : String}
    {n : Nat} {e : PipelineEvent} (hc : Current s st id n) (hm : st.stage ≠ .merge) :
    s.mergeInFlight = true → e.answersMerge = true := by
  rw [not_inFlight_of_current hc hm]
  intro hflight
  cases hflight

variable {s s' : PipelineState} {A : List PipelineAction}

private theorem step_workCompleted_iff {id : String} {n : Nat} {product : WorkProduct} :
    step s (.workCompleted id n product) = .ok (s', A) ↔
      Accepted s (.workCompleted id n product) s' A := by
  rw [step_result_iff rfl]
  constructor
  · rintro ⟨-, ⟨st, hc, -⟩, h⟩
    simp only [handle, onWorkCompleted, currentStage, hc.stage, Option.map_some] at h
    split at h
    · rename_i role text output hst
      rw [Option.some.injEq] at hst
      split_ifs at h with hm
      exact .workCompleted hc hst (by simpa using hm) h
    · cases h
  · intro ha
    cases ha with
    | workCompleted hc hst hm h =>
      refine ⟨passes_of_not_inFlight hc (by simp [hst]), ⟨_, hc, by simp⟩, ?_⟩
      simpa [handle, onWorkCompleted, currentStage, hc.stage, hst, hm] using h

private theorem step_submitted_iff {id : String} {n : Nat} {change : Option String} :
    step s (.submitted id n change) = .ok (s', A) ↔ Accepted s (.submitted id n change) s' A := by
  rw [step_result_iff rfl]
  constructor
  · rintro ⟨-, ⟨st, hc, -⟩, h⟩
    simp only [handle, onSubmitted] at h
    cases he : s.ensureCurrentStage .submit with
    | error e => simp [he] at h
    | ok u =>
      obtain ⟨forge, hst⟩ := WorkflowStage.isKind_submit_iff.mp
        ((ensureCurrentStage_eq_ok_iff hc.running hc.stage).mp he)
      exact .submitted hc hst (by simpa [he] using h)
  · intro ha
    cases ha with
    | submitted hc hst h =>
      refine ⟨passes_of_not_inFlight hc (by simp [hst]), ⟨_, hc, by simp⟩, ?_⟩
      have he := (ensureCurrentStage_eq_ok_iff hc.running hc.stage).mpr
        (WorkflowStage.isKind_submit_iff.mpr ⟨_, hst⟩)
      simpa [handle, onSubmitted, he] using h

private theorem step_commandFinished_iff {id : String} {n : Nat} {head : Option String}
    {code : Option Int} :
    step s (.commandFinished id n head code) = .ok (s', A) ↔
      Accepted s (.commandFinished id n head code) s' A := by
  rw [step_result_iff rfl]
  constructor
  · rintro ⟨-, ⟨st, hc, hh⟩, h⟩
    simp only [handle, onCommandFinished] at h
    cases he : s.ensureCurrentStage .command with
    | error e => simp [he] at h
    | ok u =>
      have hk := (ensureCurrentStage_eq_ok_iff hc.running hc.stage).mp he
      obtain ⟨command, hst⟩ := WorkflowStage.isKind_command_iff.mp hk
      obtain rfl := hh (WorkflowStage.needsHead_of_isHeadBound
        (WorkflowStage.isHeadBound_iff.mpr (Or.inl hk))) head rfl
      simp only [he] at h
      split_ifs at h with hx
      · subst hx
        exact .commandPassed hc hst h
      · exact .commandFailed hc hst hx h
  · intro ha
    have hk : ∀ {st : WorkflowStage} {command : String}, st.stage = .command command →
        Current s st id n → s.ensureCurrentStage .command = .ok () := fun hst hc =>
      (ensureCurrentStage_eq_ok_iff hc.running hc.stage).mpr
        (WorkflowStage.isKind_command_iff.mpr ⟨_, hst⟩)
    cases ha with
    | commandPassed hc hst h =>
      refine ⟨passes_of_not_inFlight hc (by simp [hst]), ⟨_, hc, by simp⟩, ?_⟩
      simpa [handle, onCommandFinished, hk hst hc] using h
    | commandFailed hc hst hx h =>
      refine ⟨passes_of_not_inFlight hc (by simp [hst]), ⟨_, hc, by simp⟩, ?_⟩
      simpa [handle, onCommandFinished, hk hst hc, hx] using h

theorem boundHead_of_current {st : WorkflowStage} {bound : Bool} {head : Option String}
    {approver : Approver} {count : Nat} (hst : st.stage = .approval approver count bound)
    (hh : st.needsHead = true → ∀ h ∈ some head, h = s.currentHead)
    (hb : bound = true → s.currentHead.isSome = true) :
    bound = true → s.currentHead.isSome = true ∧ head = s.currentHead := by
  intro h
  subst h
  refine ⟨hb rfl, hh ?_ head rfl⟩
  exact WorkflowStage.needsHead_of_isHeadBound (WorkflowStage.isHeadBound_iff.mpr
    (Or.inr (WorkflowStage.isBoundApproval_iff.mpr ⟨_, _, hst⟩)))

theorem headMatches_of_bound {st : WorkflowStage} {bound : Bool} {head : Option String}
    {approver : Approver} {count : Nat} (hst : st.stage = .approval approver count bound)
    (hb : bound = true → s.currentHead.isSome = true ∧ head = s.currentHead) :
    st.needsHead = true → ∀ h ∈ some head, h = s.currentHead := by
  rintro hn h ⟨⟩
  have hbound : bound = true := by
    simpa [WorkflowStage.needsHead, WorkflowStage.isHeadBound, WorkflowStage.isKind,
      WorkflowStage.isBoundApproval, hst, Stage.kind] using hn
  exact (hb hbound).2

private theorem step_approvalGranted_iff {id reviewer : String} {n : Nat}
    {head child : Option String} :
    step s (.approvalGranted id n reviewer head child) = .ok (s', A) ↔
      Accepted s (.approvalGranted id n reviewer head child) s' A := by
  rw [step_result_iff rfl]
  constructor
  · rintro ⟨-, ⟨st, hc, hh⟩, h⟩
    simp only [handle, onApprovalGranted] at h
    cases ha : s.currentApproval with
    | error e => simp [ha] at h
    | ok r =>
      obtain ⟨bound, count⟩ := r
      obtain ⟨⟨approver, hst⟩, hb⟩ := (currentApproval_eq_ok_iff hc.running hc.stage).mp ha
      have hb' := boundHead_of_current hst hh hb
      simp only [ha] at h
      split_ifs at h with hr
      cases hp : s.choosePick child with
      | error e => simp [hp] at h
      | ok next =>
        simp only [hp, choosePick_reviewers hp, List.length_append, List.length_singleton] at h
        split_ifs at h with hlt
        · cases h
          exact .approvalCounted hc hst hb' (by simpa using hr) hp hlt
        · exact .approvalMet hc hst hb' (by simpa using hr) hp (by omega) h
  · intro ha
    cases ha with
    | approvalCounted hc hst hb hr hp hlt =>
      refine ⟨passes_of_not_inFlight hc (by simp [hst]), ⟨_, hc, headMatches_of_bound hst hb⟩, ?_⟩
      have ha := (currentApproval_eq_ok_iff hc.running hc.stage).mpr
        ⟨⟨_, hst⟩, fun h => (hb h).1⟩
      simp [handle, onApprovalGranted, ha, hr, hp, choosePick_reviewers hp, hlt]
    | approvalMet hc hst hb hr hp hge h =>
      refine ⟨passes_of_not_inFlight hc (by simp [hst]), ⟨_, hc, headMatches_of_bound hst hb⟩, ?_⟩
      have ha := (currentApproval_eq_ok_iff hc.running hc.stage).mpr
        ⟨⟨_, hst⟩, fun h => (hb h).1⟩
      simpa [handle, onApprovalGranted, ha, hr, hp, choosePick_reviewers hp,
        Nat.not_lt.mpr hge] using h

private theorem step_changesRequested_iff {id reviewer reason : String} {n : Nat}
    {head : Option String} :
    step s (.changesRequested id n reviewer head reason) = .ok (s', A) ↔
      Accepted s (.changesRequested id n reviewer head reason) s' A := by
  rw [step_result_iff rfl]
  constructor
  · rintro ⟨-, ⟨st, hc, hh⟩, h⟩
    simp only [handle, onChangesRequested] at h
    cases ha : s.currentApproval with
    | error e => simp [ha] at h
    | ok r =>
      obtain ⟨bound, count⟩ := r
      obtain ⟨⟨approver, hst⟩, hb⟩ := (currentApproval_eq_ok_iff hc.running hc.stage).mp ha
      simp only [ha] at h
      exact .changesRequested hc hst (boundHead_of_current hst hh hb) h
  · intro ha
    cases ha with
    | changesRequested hc hst hb h =>
      refine ⟨passes_of_not_inFlight hc (by simp [hst]), ⟨_, hc, headMatches_of_bound hst hb⟩, ?_⟩
      have ha := (currentApproval_eq_ok_iff hc.running hc.stage).mpr
        ⟨⟨_, hst⟩, fun h => (hb h).1⟩
      simpa [handle, onChangesRequested, ha] using h

private theorem step_start_iff : step s .start = .ok (s', A) ↔ Accepted s .start s' A := by
  rw [step_observation_iff rfl]
  constructor
  · rintro ⟨-, h⟩
    simp only [handle, onStart] at h
    split_ifs at h with hp he
    exact .start (by simpa using hp) (by simpa using he) h
  · intro ha
    cases ha with
    | start hp hne h =>
      refine ⟨fun hf => ?_, by simpa [handle, onStart, hp, hne] using h⟩
      rw [(exists_stage_of_mergeInFlight hf).1] at hp
      cases hp

private theorem step_commitCreated_iff {head patch : String} :
    step s (.commitCreated head patch) = .ok (s', A) ↔
      Accepted s (.commitCreated head patch) s' A := by
  rw [step_observation_iff rfl]
  constructor
  · rintro ⟨-, h⟩
    simp only [handle, onCommitCreated] at h
    cases he : s.ensureRunning with
    | error e => simp [he] at h
    | ok u =>
      obtain ⟨hr, st, hs⟩ := ensureRunning_eq_ok_iff.mp he
      simp only [he] at h
      split_ifs at h with hw hh hf hf
      · cases h
        simpa [hf] using Accepted.commitKnown patch hr hs (by simpa using hw) hh
      · cases h
        simpa [hf] using Accepted.commitKnown patch hr hs (by simpa using hw) hh
      · cases h
        exact .commitDeferred hf (by simpa using hw) hh
      · exact .commitCreated hr hs (by simpa using hf) (by simpa using hw) hh h
  · intro ha
    refine ⟨fun _ => rfl, ?_⟩
    cases ha with
    | commitKnown _ hr hs hw hh =>
      simp only [handle, onCommitCreated, ensureRunning_eq_ok_iff.mpr ⟨hr, _, hs⟩, hw, hh,
        Bool.not_true, Bool.false_eq_true, if_false, if_true]
      split_ifs <;> rfl
    | commitDeferred hf hw hh =>
      obtain ⟨hr, st, hs, -⟩ := exists_stage_of_mergeInFlight hf
      simp [handle, onCommitCreated, ensureRunning_eq_ok_iff.mpr ⟨hr, st, hs⟩, hw, hh, hf]
    | commitCreated hr hs hf hw hh h =>
      simpa [handle, onCommitCreated, ensureRunning_eq_ok_iff.mpr ⟨hr, _, hs⟩, hw, hh, hf] using h

private theorem step_mainAdvanced_iff {head patch : String} {conflict : Bool} :
    step s (.mainAdvanced head patch conflict) = .ok (s', A) ↔
      Accepted s (.mainAdvanced head patch conflict) s' A := by
  rw [step_observation_iff rfl]
  constructor
  · rintro ⟨-, h⟩
    simp only [handle, onMainAdvanced] at h
    cases he : s.ensureRunning with
    | error e => simp [he] at h
    | ok u =>
      obtain ⟨hr, st, hs⟩ := ensureRunning_eq_ok_iff.mp he
      simp only [he] at h
      split_ifs at h with hw hf
      · cases h
        exact .advanceDeferred hf (by simpa using hw)
      · exact .mainAdvanced hr hs (by simpa using hf) (by simpa using hw) h
  · intro ha
    refine ⟨fun _ => rfl, ?_⟩
    cases ha with
    | advanceDeferred hf hw =>
      obtain ⟨hr, st, hs, -⟩ := exists_stage_of_mergeInFlight hf
      simp [handle, onMainAdvanced, ensureRunning_eq_ok_iff.mpr ⟨hr, st, hs⟩, hw, hf]
    | mainAdvanced hr hs hf hw h =>
      simpa [handle, onMainAdvanced, ensureRunning_eq_ok_iff.mpr ⟨hr, _, hs⟩, hw, hf] using h

theorem childrenOk_iff {children : List String} :
    childrenOk children = true ↔
      (children.isEmpty || children.any (·.isEmpty) || hasDuplicate children) = false := by
  simp [childrenOk]

private theorem step_fanoutCompleted_iff {id : String} {n : Nat} {children : List String}
    {child : Option String} :
    step s (.fanoutCompleted id n children child) = .ok (s', A) ↔
      Accepted s (.fanoutCompleted id n children child) s' A := by
  rw [step_result_iff rfl]
  constructor
  · rintro ⟨-, ⟨st, hc, -⟩, h⟩
    simp only [handle, onFanoutCompleted] at h
    cases he : s.ensureCurrentStage .fanout with
    | error e => simp [he] at h
    | ok u =>
      obtain ⟨source, join, hst⟩ := WorkflowStage.isKind_fanout_iff.mp
        ((ensureCurrentStage_eq_ok_iff hc.running hc.stage).mp he)
      simp only [he, currentStage, hc.stage, Option.map_some, hst] at h
      by_cases hch : childrenOk children = true
      case neg =>
        rw [childrenOk_iff, Bool.not_eq_false] at hch
        simp [hch] at h
      rw [childrenOk_iff.mp hch] at h
      simp only [Bool.false_eq_true, if_false] at h
      cases join with
      | first =>
        cases child with
        | none => simp at h
        | some winner =>
          simp only at h
          split_ifs at h with hw
          exact .fanoutFirst hc hst hch (by simpa using hw) h
      | all =>
        simp only at h
        split_ifs at h with hn
        obtain rfl : child = none := by simpa using hn
        exact .fanoutCompleted hc hst (by simp) hch h
      | pick =>
        simp only at h
        split_ifs at h with hn
        obtain rfl : child = none := by simpa using hn
        exact .fanoutCompleted hc hst (by simp) hch h
  · intro ha
    have hk : ∀ {st : WorkflowStage} {source : FanoutSource} {join : FanoutJoin},
        st.stage = .fanout source join → Current s st id n →
        s.ensureCurrentStage .fanout = .ok () := fun hst hc =>
      (ensureCurrentStage_eq_ok_iff hc.running hc.stage).mpr
        (WorkflowStage.isKind_fanout_iff.mpr ⟨_, _, hst⟩)
    cases ha with
    | @fanoutCompleted st _ _ source join _ _ _ hc hst hj hch h =>
      refine ⟨passes_of_not_inFlight hc (by simp [hst]), ⟨_, hc, by simp⟩, ?_⟩
      simp only [handle, onFanoutCompleted, hk hst hc, childrenOk_iff.mp hch, currentStage,
        hc.stage, Option.map_some, hst]
      cases join with
      | first => exact absurd rfl hj
      | all => simpa using h
      | pick => simpa using h
    | fanoutFirst hc hst hch hw h =>
      refine ⟨passes_of_not_inFlight hc (by simp [hst]), ⟨_, hc, by simp⟩, ?_⟩
      simpa [handle, onFanoutCompleted, hk hst hc, childrenOk_iff.mp hch, currentStage,
        hc.stage, hst, hw] using h

private theorem not_inFlight_of_answers {e : PipelineEvent}
    (h : s.mergeInFlight = true → e.answersMerge = true) (he : e.answersMerge = false) :
    s.mergeInFlight = false := by
  rw [Bool.eq_false_iff]
  intro hf
  rw [h hf] at he
  cases he

private theorem step_stageFailed_iff {id reason : String} {n : Nat} :
    step s (.stageFailed id n reason) = .ok (s', A) ↔
      Accepted s (.stageFailed id n reason) s' A := by
  rw [step_result_iff rfl]
  constructor
  · rintro ⟨hf, ⟨st, hc, -⟩, h⟩
    exact .stageFailed hc (not_inFlight_of_answers hf rfl) h
  · intro ha
    cases ha with
    | stageFailed hc hf h => exact ⟨by simp [hf], ⟨_, hc, by simp⟩, h⟩

private theorem step_stageTimedOut_iff {id : String} {n : Nat} :
    step s (.stageTimedOut id n) = .ok (s', A) ↔ Accepted s (.stageTimedOut id n) s' A := by
  rw [step_result_iff rfl]
  constructor
  · rintro ⟨hf, ⟨st, hc, -⟩, h⟩
    have hf' := not_inFlight_of_answers hf rfl
    simp only [handle, onStageTimedOut, currentStage, hc.stage] at h
    split at h
    · rename_i ha
      split_ifs at h with hn
      cases h
      exact .timeoutNotified hc hf' ha hn
    · rename_i ha
      exact .timeoutReassigned hc hf' ha h
    · rename_i ha
      cases h
      exact .timeoutCancelled hc hf' ha
  · intro ha
    cases ha with
    | timeoutNotified hc hf ha hn =>
      refine ⟨by simp [hf], ⟨_, hc, by simp⟩, ?_⟩
      simp [handle, onStageTimedOut, currentStage, hc.stage, ha, hn]
    | timeoutReassigned hc hf ha h =>
      refine ⟨by simp [hf], ⟨_, hc, by simp⟩, ?_⟩
      simpa [handle, onStageTimedOut, currentStage, hc.stage, ha] using h
    | timeoutCancelled hc hf ha =>
      refine ⟨by simp [hf], ⟨_, hc, by simp⟩, ?_⟩
      simp [handle, onStageTimedOut, currentStage, hc.stage, ha]

private theorem step_cancel_iff {reason : String} :
    step s (.cancel reason) = .ok (s', A) ↔ Accepted s (.cancel reason) s' A := by
  rw [step_observation_iff rfl]
  constructor
  · rintro ⟨hf, h⟩
    have hf' := not_inFlight_of_answers hf rfl
    simp only [handle, onCancel] at h
    split at h
    · rename_i hp
      cases h
      exact .cancelledPending hp
    · cases he : s.ensureRunning with
      | error e => simp [he] at h
      | ok u =>
        obtain ⟨hr, st, hs⟩ := ensureRunning_eq_ok_iff.mp he
        simp only [he, currentStage, hs, Option.map_some] at h
        cases h
        exact .cancelledRunning hr hs hf'
    · cases h
  · intro ha
    cases ha with
    | cancelledPending hp => simp [handle, onCancel, hp, mergeInFlight]
    | cancelledRunning hr hs hf =>
      refine ⟨by simp [hf], ?_⟩
      simp [handle, onCancel, hr, ensureRunning_eq_ok_iff.mpr ⟨hr, _, hs⟩, currentStage, hs]

private theorem mergeHead_of_identity {st : WorkflowStage} {head : String}
    (hm : st.isKind .merge = true)
    (hh : st.needsHead = true → ∀ h ∈ some (some head), h = s.currentHead) :
    s.currentHead = some head :=
  (hh (WorkflowStage.needsHead_iff.mpr (Or.inl hm)) _ rfl).symm

private theorem step_mergeFailed_iff {id head reason : String} {n : Nat} :
    step s (.mergeFailed id n head reason) = .ok (s', A) ↔
      Accepted s (.mergeFailed id n head reason) s' A := by
  rw [step_result_iff rfl]
  constructor
  · rintro ⟨-, ⟨st, hc, hh⟩, h⟩
    simp only [handle, onMergeFailed] at h
    cases he : s.ensureCurrentStage .merge with
    | error e => simp [he] at h
    | ok u =>
      have hm := (ensureCurrentStage_eq_ok_iff hc.running hc.stage).mp he
      exact .mergeFailed hc (WorkflowStage.isKind_merge_iff.mp hm) (mergeHead_of_identity hm hh)
        (by simpa [he] using h)
  · intro ha
    cases ha with
    | mergeFailed hc hst hh h =>
      refine ⟨fun _ => rfl, ⟨_, hc, by simp [hh]⟩, ?_⟩
      have he := (ensureCurrentStage_eq_ok_iff hc.running hc.stage).mpr
        (WorkflowStage.isKind_merge_iff.mpr hst)
      simpa [handle, onMergeFailed, he] using h

private theorem step_mergeCompleted_iff {id head commit : String} {n : Nat} :
    step s (.mergeCompleted id n head commit) = .ok (s', A) ↔
      Accepted s (.mergeCompleted id n head commit) s' A := by
  rw [step_result_iff rfl]
  constructor
  · rintro ⟨-, ⟨st, hc, hh⟩, h⟩
    simp only [handle, onMergeCompleted] at h
    cases he : s.ensureCurrentStage .merge with
    | error e => simp [he] at h
    | ok u =>
      have hm := (ensureCurrentStage_eq_ok_iff hc.running hc.stage).mp he
      simp only [he] at h
      split_ifs at h with hg
      cases h
      exact .mergeCompleted hc (WorkflowStage.isKind_merge_iff.mp hm)
        (mergeHead_of_identity hm hh) (by simpa using hg)
  · intro ha
    cases ha with
    | mergeCompleted hc hst hh hg =>
      refine ⟨fun _ => rfl, ⟨_, hc, by simp [hh]⟩, ?_⟩
      have he := (ensureCurrentStage_eq_ok_iff hc.running hc.stage).mpr
        (WorkflowStage.isKind_merge_iff.mpr hst)
      simp [handle, onMergeCompleted, he, hg]

/-- `step` accepts exactly what `Accepted` lists. -/
theorem step_eq_ok_iff {e : PipelineEvent} : step s e = .ok (s', A) ↔ Accepted s e s' A := by
  cases e with
  | start => exact step_start_iff
  | workCompleted => exact step_workCompleted_iff
  | submitted => exact step_submitted_iff
  | commandFinished => exact step_commandFinished_iff
  | approvalGranted => exact step_approvalGranted_iff
  | changesRequested => exact step_changesRequested_iff
  | commitCreated => exact step_commitCreated_iff
  | mainAdvanced => exact step_mainAdvanced_iff
  | fanoutCompleted => exact step_fanoutCompleted_iff
  | stageFailed => exact step_stageFailed_iff
  | stageTimedOut => exact step_stageTimedOut_iff
  | cancel => exact step_cancel_iff
  | mergeCompleted => exact step_mergeCompleted_iff
  | mergeFailed => exact step_mergeFailed_iff

end Agend.Pipeline
