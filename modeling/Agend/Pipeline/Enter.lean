import Agend.Pipeline.Shape
import Mathlib.Data.List.TakeWhile

/-! Stage entry in closed form: satisfied approvals are skipped, and the entry loop asks for the
first stage that is not. -/
namespace Agend.Pipeline.PipelineState

variable {s : PipelineState}

/-- Where the entry loop from `index` stops. -/
def landing (s : PipelineState) (index : Nat) : Nat :=
  index + ((s.workflow.stages.drop index).takeWhile s.approvalForStage).length

/-- What the entry loop leaves when it has skipped every remaining stage. -/
def settle (s : PipelineState) : PipelineState :=
  { s with pendingWorkReason := none, approvalReviewers := [], pendingPick := none }

/-- The state with one more attempt of the stage at `index`. -/
def opened (s : PipelineState) (index : Nat) : PipelineState :=
  { s with attempts := s.attempts.modify index (· + 1) }

theorem approvalForStage_isKind {st : WorkflowStage} (h : s.approvalForStage st = true) :
    st.isKind .approval = true := by
  unfold approvalForStage at h
  split at h
  · simp_all [WorkflowStage.isKind, Stage.kind]
  · cases h

theorem approvalForStage_congr {s' : PipelineState} (ha : s'.approvals = s.approvals)
    (hc : s'.currentHead = s.currentHead) : s'.approvalForStage = s.approvalForStage := by
  funext st
  simp [approvalForStage, approvalHeads, ha, hc]

theorem arrive_of_not_fanout {index : Nat} {st : WorkflowStage}
    (h : st.isKind .fanout = false) :
    s.arrive index st = { s with stageIndex := index, pendingWorkReason := none,
                                 approvalReviewers := [], pendingPick := none } := by
  simp [arrive, h]

theorem approvalForStage_arrive {index : Nat} {st : WorkflowStage} :
    (s.arrive index st).approvalForStage st = s.approvalForStage st := by
  cases hf : st.isKind .fanout with
  | false => rw [arrive_of_not_fanout hf]; rfl
  | true =>
    obtain ⟨source, join, hs⟩ := WorkflowStage.isKind_fanout_iff.mp hf
    simp [approvalForStage, hs]

private theorem isKind_fanout_of_satisfied {st : WorkflowStage}
    (h : s.approvalForStage st = true) : st.isKind .fanout = false := by
  rw [Bool.eq_false_iff]
  intro hf
  cases WorkflowStage.isKind_unique (approvalForStage_isKind h) hf

private theorem enterFrom_eq (rest : List WorkflowStage) (index : Nat) (s : PipelineState) :
    enterFrom rest index s =
      match rest[(rest.takeWhile s.approvalForStage).length]? with
      | some stage =>
        let landed := index + (rest.takeWhile s.approvalForStage).length
        (s.arrive landed stage).request landed stage
      | none => .ok (if rest = [] then s else s.settle).finish := by
  induction rest generalizing index s with
  | nil => simp [enterFrom]
  | cons st rest ih =>
    cases hs : s.approvalForStage st with
    | false => simp [enterFrom, approvalForStage_arrive, hs]
    | true =>
      have hf := isKind_fanout_of_satisfied hs
      have hcongr : (s.arrive index st).approvalForStage = s.approvalForStage := by
        rw [arrive_of_not_fanout hf]; rfl
      have harrive : ∀ j (st' : WorkflowStage),
          (s.arrive index st).arrive j st' = s.arrive j st' := by
        intro j st'
        rw [arrive_of_not_fanout hf]
        simp only [arrive]
        split <;> rfl
      simp only [enterFrom, hcongr, hs, if_true, ih, List.takeWhile_cons_of_pos,
        List.length_cons, List.getElem?_cons_succ, reduceCtorEq, if_false, harrive]
      rw [show index + ((rest.takeWhile s.approvalForStage).length + 1) =
        index + 1 + (rest.takeWhile s.approvalForStage).length by omega]
      split
      · rfl
      · rw [arrive_of_not_fanout hf]
        split <;> rfl

theorem enterStage_eq (s : PipelineState) (index : Nat) :
    s.enterStage index =
      match s.workflow.stages[s.landing index]? with
      | some stage => (s.arrive (s.landing index) stage).request (s.landing index) stage
      | none => .ok (if index < s.workflow.stages.length then s.settle else s).finish := by
  rw [enterStage, enterFrom_eq, List.getElem?_drop, ← landing]
  split
  · rfl
  · simp only [List.drop_eq_nil_iff]
    split_ifs <;> first | rfl | omega

theorem le_landing (index : Nat) : index ≤ s.landing index := Nat.le_add_right _ _

theorem landing_le {index : Nat} (h : index ≤ s.workflow.stages.length) :
    s.landing index ≤ s.workflow.stages.length := by
  have : ((s.workflow.stages.drop index).takeWhile s.approvalForStage).length ≤
      (s.workflow.stages.drop index).length := (List.takeWhile_sublist _).length_le
  rw [List.length_drop] at this
  unfold landing
  omega

/-- Every stage the entry loop passes is an approval satisfied for the current head. -/
theorem satisfied_of_lt_landing {index j : Nat} (h1 : index ≤ j) (h2 : j < s.landing index) :
    s.workflow.At j s.approvalForStage := by
  have hj : j - index < ((s.workflow.stages.drop index).takeWhile s.approvalForStage).length := by
    unfold landing at h2
    omega
  have hmem := List.mem_takeWhile_imp (List.getElem_mem hj)
  have hp := List.takeWhile_prefix s.approvalForStage (l := s.workflow.stages.drop index)
  have he := hp.getElem hj
  refine ⟨_, ?_, hmem⟩
  rw [he, ← List.getElem?_eq_getElem, List.getElem?_drop, show index + (j - index) = j by omega]

theorem landing_eq_self {index : Nat} {st : WorkflowStage}
    (hs : s.workflow.stages[index]? = some st) (h : s.approvalForStage st = false) :
    s.landing index = index := by
  refine le_antisymm (not_lt.mp fun hlt => ?_) (le_landing index)
  have := satisfied_of_lt_landing le_rfl hlt
  rw [Workflow.at_iff hs, h] at this
  cases this

theorem not_satisfied_at_landing {index : Nat} {st : WorkflowStage}
    (h : s.workflow.stages[s.landing index]? = some st) : s.approvalForStage st = false := by
  rw [landing, ← List.getElem?_drop] at h
  generalize s.workflow.stages.drop index = rest at h
  induction rest with
  | nil => simp at h
  | cons a rest ih =>
    cases ha : s.approvalForStage a with
    | false => simp_all
    | true => exact ih (by simpa [ha] using h)

/-- The state in which the entry loop asks for the stage at `index`. -/
def entered (s : PipelineState) (index : Nat) (stage : WorkflowStage) : PipelineState :=
  (s.arrive index stage).opened index

section entered

variable {index : Nat} {st : WorkflowStage}

@[simp] theorem entered_taskId : (s.entered index st).taskId = s.taskId := by
  unfold entered opened arrive clearFanout; split <;> rfl

@[simp] theorem entered_pendingWorkReason : (s.entered index st).pendingWorkReason = none := rfl

@[simp] theorem entered_workflow : (s.entered index st).workflow = s.workflow := by
  unfold entered opened arrive clearFanout; split <;> rfl

@[simp] theorem entered_stageIndex : (s.entered index st).stageIndex = index := rfl

@[simp] theorem entered_status : (s.entered index st).status = s.status := by
  unfold entered opened arrive clearFanout; split <;> rfl

@[simp] theorem entered_branch : (s.entered index st).branch = s.branch := by
  unfold entered opened arrive clearFanout; split <;> rfl

@[simp] theorem entered_currentHead : (s.entered index st).currentHead = s.currentHead := by
  unfold entered opened arrive clearFanout; split <;> rfl

@[simp] theorem entered_patchId : (s.entered index st).patchId = s.patchId := by
  unfold entered opened arrive clearFanout; split <;> rfl

@[simp] theorem entered_changeId : (s.entered index st).changeId = s.changeId := by
  unfold entered opened arrive clearFanout; split <;> rfl

@[simp] theorem entered_workProduct : (s.entered index st).workProduct = s.workProduct := by
  unfold entered opened arrive clearFanout; split <;> rfl

@[simp] theorem entered_approvalReviewers : (s.entered index st).approvalReviewers = [] := rfl

@[simp] theorem entered_pendingPick : (s.entered index st).pendingPick = none := rfl

@[simp] theorem entered_attempts :
    (s.entered index st).attempts = s.attempts.modify index (· + 1) := by
  unfold entered opened arrive clearFanout; split <;> rfl

@[simp] theorem entered_approvals : (s.entered index st).approvals =
    if st.isKind .fanout then s.approvals.filter fun a => s.recordedBefore index a.stageId
    else s.approvals := by
  unfold entered opened arrive clearFanout; split <;> rfl

@[simp] theorem entered_passedChecks : (s.entered index st).passedChecks = s.passedChecks := by
  unfold entered opened arrive clearFanout; split <;> rfl

@[simp] theorem entered_fanoutChildTaskIds : (s.entered index st).fanoutChildTaskIds =
    if st.isKind .fanout then [] else s.fanoutChildTaskIds := by
  unfold entered opened arrive clearFanout; split <;> rfl

@[simp] theorem entered_selectedFanoutChild : (s.entered index st).selectedFanoutChild =
    if st.isKind .fanout then none else s.selectedFanoutChild := by
  unfold entered opened arrive clearFanout; split <;> rfl

@[simp] theorem entered_mergeCommit : (s.entered index st).mergeCommit = s.mergeCommit := by
  unfold entered opened arrive clearFanout; split <;> rfl

@[simp] theorem entered_pendingHeadChanges :
    (s.entered index st).pendingHeadChanges = s.pendingHeadChanges := by
  unfold entered opened arrive clearFanout; split <;> rfl

@[simp] theorem entered_notifiedTimeout :
    (s.entered index st).notifiedTimeout = s.notifiedTimeout := by
  unfold entered opened arrive clearFanout; split <;> rfl

end entered

/-- What a stage asks for in its attempt; a command whose template does not expand and a merge
without a head ask for nothing. -/
def requestOf (s : PipelineState) (index : Nat) (stage : WorkflowStage) (attempt : Nat) :
    Option PipelineAction :=
  match stage.stage with
  | .work role _ _ => some (.assignWork stage.id attempt role)
  | .submit forge => some (.submit stage.id attempt forge)
  | .command command =>
    match expandCommandPlaceholders command s.commandContext with
    | .ok command => some (.runCommand stage.id attempt command s.currentHead s.branch s.changeId
        stage.effectiveTimeoutMs stage.effectiveTimeoutAction)
    | .error _ => none
  | .approval _ _ bindHead => some (.requestApproval stage.id attempt bindHead
      (if bindHead then s.currentHead else none)
      (if s.workflow.picks index then s.fanoutChildTaskIds else []))
  | .merge => s.currentHead.map (.merge stage.id attempt)
  | .fanout source join => some (.fanout stage.id attempt source join s.workProduct s.currentHead)

/-- The ways stage entry from `index` succeeds. -/
inductive Entry (s : PipelineState) (index : Nat) : PipelineState → List PipelineAction → Prop
  | asked {st : WorkflowStage} {action : PipelineAction}
      (hs : s.workflow.stages[s.landing index]? = some st)
      (hm : st.stage = .merge → (s.mergeGate (s.landing index)).allowed = true)
      (ha : (s.entered (s.landing index) st).requestOf (s.landing index) st
        (s.entered (s.landing index) st).attempt = some action) :
      Entry s index (s.entered (s.landing index) st)
        [scheduleFor st (s.entered (s.landing index) st).attempt, action]
  | unexpanded {st : WorkflowStage} {command : String}
      {e : CommandTemplateError}
      (hs : s.workflow.stages[s.landing index]? = some st) (hk : st.stage = .command command)
      (he : expandCommandPlaceholders command s.commandContext = .error e) :
      Entry s index ((s.entered (s.landing index) st).failTask st.id e.message).1
        ((s.entered (s.landing index) st).failTask st.id e.message).2
  | finished (hs : s.workflow.stages[s.landing index]? = none) :
      Entry s index (if index < s.workflow.stages.length then s.settle else s).finish.1
        [.taskDone s.mergeCommit]

private theorem entered_attempt_eq {index : Nat} {st : WorkflowStage} :
    (s.entered index st).attempt = ((s.arrive index st).opened index).attempts.getD index 0 := rfl

/-- One turn of the entry loop that stops. -/
private theorem request_eq (index : Nat) (st : WorkflowStage) :
    (s.arrive index st).request index st =
      match st.stage with
      | .merge =>
        if !(s.mergeGate index).allowed then .error .mergeGateClosed
        else match s.currentHead with
          | some head => .ok (s.entered index st,
              [scheduleFor st (s.entered index st).attempt,
                .merge st.id (s.entered index st).attempt head])
          | none => .error .missingHead
      | .command command =>
        match expandCommandPlaceholders command s.commandContext with
        | .ok text => .ok (s.entered index st, [scheduleFor st (s.entered index st).attempt,
            .runCommand st.id (s.entered index st).attempt text s.currentHead s.branch s.changeId
              st.effectiveTimeoutMs st.effectiveTimeoutAction])
        | .error e => .ok ((s.entered index st).failTask st.id e.message)
      | _ => .ok (s.entered index st, [scheduleFor st (s.entered index st).attempt] ++
          ((s.entered index st).requestOf index st (s.entered index st).attempt).toList) := by
  cases hst : st.stage with
  | merge =>
    have harrive : s.arrive index st = { s with
        stageIndex := index, pendingWorkReason := none, approvalReviewers := [],
        pendingPick := none } := arrive_of_not_fanout (by simp [WorkflowStage.isKind, hst, Stage.kind])
    simp only [request, hst, entered, harrive]
    rfl
  | command c =>
    have harrive : s.arrive index st = { s with
        stageIndex := index, pendingWorkReason := none, approvalReviewers := [],
        pendingPick := none } := arrive_of_not_fanout (by simp [WorkflowStage.isKind, hst, Stage.kind])
    simp only [request, hst, entered, harrive]
    rfl
  | work | submit | approval | fanout =>
    simp only [request, hst, requestOf, Option.toList_some, List.singleton_append]
    rfl

theorem enterStage_eq_ok_iff {index : Nat} {s' : PipelineState} {A : List PipelineAction} :
    s.enterStage index = .ok (s', A) ↔ Entry s index s' A := by
  rw [enterStage_eq]
  cases hs : s.workflow.stages[s.landing index]? with
  | none =>
    constructor
    · intro h
      cases h
      have : Entry s index _ _ := .finished hs
      simpa [finish, settle, apply_ite PipelineState.mergeCommit] using this
    · intro h
      cases h with
      | asked hs' => simp [hs] at hs'
      | unexpanded hs' => simp [hs] at hs'
      | finished => simp [finish, settle, apply_ite PipelineState.mergeCommit]
  | some st =>
    simp only [request_eq]
    constructor
    · intro h
      cases hst : st.stage with
      | merge =>
        simp only [hst] at h
        split_ifs at h with hg
        cases hh : s.currentHead with
        | none => simp [hh] at h
        | some head =>
          simp only [hh, Except.ok.injEq, Prod.mk.injEq] at h
          obtain ⟨rfl, rfl⟩ := h
          exact .asked hs (fun _ => by simpa using hg) (by simp [requestOf, hst, hh])
      | command c =>
        simp only [hst] at h
        cases he : expandCommandPlaceholders c s.commandContext with
        | error e =>
          simp only [he, Except.ok.injEq] at h
          obtain ⟨rfl, rfl⟩ := Prod.mk.injEq .. ▸ h
          exact .unexpanded hs hst he
        | ok text =>
          simp only [he, Except.ok.injEq, Prod.mk.injEq] at h
          obtain ⟨rfl, rfl⟩ := h
          have hctx : (s.entered (s.landing index) st).commandContext = s.commandContext := by
            simp [commandContext]
          exact .asked hs (by simp [hst]) (by simp [requestOf, hst, hctx, he])
      | work | submit | approval | fanout =>
        simp only [hst, requestOf, Option.toList_some, List.singleton_append, Except.ok.injEq,
          Prod.mk.injEq] at h
        obtain ⟨rfl, rfl⟩ := h
        exact .asked hs (by simp [hst]) (by simp [requestOf, hst])
    · intro h
      cases h with
      | finished hs' => simp [hs] at hs'
      | unexpanded hs' hk he =>
        obtain rfl := Option.some.inj (hs.symm.trans hs')
        simp only [hk, he]
      | asked hs' hm ha =>
        obtain rfl := Option.some.inj (hs.symm.trans hs')
        cases hst : st.stage with
        | merge =>
          simp only [requestOf, hst, entered_currentHead, Option.map_eq_some_iff] at ha
          obtain ⟨head, hh, rfl⟩ := ha
          simp [hm hst, hh]
        | command c =>
          have hctx : (s.entered (s.landing index) st).commandContext = s.commandContext := by
            simp [commandContext]
          simp only [requestOf, hst, hctx] at ha
          cases he : expandCommandPlaceholders c s.commandContext with
          | error e => simp [he] at ha
          | ok text =>
            simp only [he, Option.some.injEq, entered_currentHead, entered_branch,
              entered_changeId] at ha
            simp only [he, ha]
        | work | submit | approval | fanout =>
          simp only [ha, Option.toList_some, List.singleton_append]

/-- Entry fails only at a merge stage whose gate is closed. -/
theorem exists_entry {index : Nat}
    (hg : s.workflow.At (s.landing index) (·.isKind .merge) →
      (s.mergeGate (s.landing index)).allowed = true) :
    ∃ s' A, s.enterStage index = .ok (s', A) := by
  rw [enterStage_eq]
  cases hs : s.workflow.stages[s.landing index]? with
  | none => exact ⟨_, _, rfl⟩
  | some st =>
    simp only [request_eq]
    cases hst : st.stage with
    | merge =>
      have hg' := hg ⟨st, hs, WorkflowStage.isKind_merge_iff.mpr hst⟩
      obtain ⟨head, hh, -⟩ := (evaluate_allowed_iff _ _ _).mp hg'
      simp [hg', hh]
    | command c =>
      simp only
      cases expandCommandPlaceholders c s.commandContext with
      | error e => exact ⟨_, _, rfl⟩
      | ok text => exact ⟨_, _, rfl⟩
    | work | submit | approval | fanout => exact ⟨_, _, rfl⟩

namespace Entry

variable {index : Nat} {s' : PipelineState} {A : List PipelineAction}

theorem workflow (h : Entry s index s' A) : s'.workflow = s.workflow := by
  cases h with
  | asked => exact entered_workflow
  | unexpanded => exact entered_workflow
  | finished => split_ifs <;> rfl

theorem taskId (h : Entry s index s' A) : s'.taskId = s.taskId := by
  cases h with
  | asked => exact entered_taskId
  | unexpanded => exact entered_taskId
  | finished => split_ifs <;> rfl

theorem currentHead (h : Entry s index s' A) : s'.currentHead = s.currentHead := by
  cases h with
  | asked => exact entered_currentHead
  | unexpanded => exact entered_currentHead
  | finished => split_ifs <;> rfl

theorem changeId (h : Entry s index s' A) : s'.changeId = s.changeId := by
  cases h with
  | asked => exact entered_changeId
  | unexpanded => exact entered_changeId
  | finished => split_ifs <;> rfl

theorem pendingHeadChanges (h : Entry s index s' A) :
    s'.pendingHeadChanges = s.pendingHeadChanges := by
  cases h with
  | asked => exact entered_pendingHeadChanges
  | unexpanded => exact entered_pendingHeadChanges
  | finished => split_ifs <;> rfl

theorem stageIndex (h : Entry s index s' A) (hi : index ≤ s.workflow.stages.length) :
    s'.stageIndex = s.landing index := by
  cases h with
  | asked => rfl
  | unexpanded => rfl
  | finished hs =>
    have := le_antisymm (landing_le hi) (List.getElem?_eq_none_iff.mp hs)
    split_ifs <;> exact this.symm

end Entry

end Agend.Pipeline.PipelineState
