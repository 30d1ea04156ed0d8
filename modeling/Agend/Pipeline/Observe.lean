import Agend.Pipeline.Outstanding

/-! Head observations never advance a task, and leave work and an in-flight merge alone. -/
namespace Agend.Pipeline

open PipelineState

variable {s s' : PipelineState} {A : List PipelineAction} {st : WorkflowStage}

/-- The task is at the first check to repeat behind the last branch work, or behind approvals that
still hold for the new head. -/
def RestartsChecks (s s' : PipelineState) : Prop :=
  ∃ b t, lastIndexBefore s.workflow.stages s.stageIndex (·.isBranchWork) = some b ∧ b < t ∧
    t ≤ s'.stageIndex ∧ s.workflow.At t (·.isHeadBound) ∧
    (∀ j, b < j → j < t → ¬ s.workflow.At j (·.isHeadBound)) ∧
    ∀ j, t ≤ j → j < s'.stageIndex → s.workflow.At j s'.approvalForStage

/-- The task is back at the last stage before it that `target` holds of, asked to rework. -/
def SentBack (target : WorkflowStage → Bool) (s s' : PipelineState) (A : List PipelineAction) :
    Prop :=
  lastIndexBefore s.workflow.stages s.stageIndex target = some s'.stageIndex ∧
    ∃ st n role reason, s'.currentStage = some st ∧ .returnToWork st.id n role reason ∈ A

/-- A submit with nothing to repeat before it only takes note of the head. -/
def OnlyNoted (s s' : PipelineState) (A : List PipelineAction) : Prop :=
  A = [] ∧ s.workflow.At s.stageIndex (·.isKind .submit) ∧
    (∀ j ≤ s.stageIndex, ¬ s.workflow.At j (·.isHeadBound)) ∧ Frame s s' ∧
    s'.branch = s.branch ∧ s'.fanoutChildTaskIds = s.fanoutChildTaskIds

/-- The approval or fanout the task waits at is asked again. -/
def AskedAgain (s s' : PipelineState) : Prop :=
  (s.workflow.At s.stageIndex (·.isKind .approval) ∨
      s.workflow.At s.stageIndex (·.isKind .fanout)) ∧
    s'.stageIndex = s.stageIndex ∧ s.attempt < s'.attempt

/-- What one observation may do to a running task; `target` picks the stage rework goes back to. -/
structure ObservationRule (target : WorkflowStage → Bool) (s s' : PipelineState)
    (A : List PipelineAction) : Prop where
  stageIndex : s'.stageIndex ≤ s.stageIndex
  work : s.atKind .work = true → A = [] ∧ s'.stageIndex = s.stageIndex ∧
    s'.attempt = s.attempt ∧ s'.status = s.status ∧ s'.pendingWorkReason = s.pendingWorkReason ∧
    s'.outstandingActions = s.outstandingActions
  inFlight : s.mergeInFlight = true →
    A = [] ∧ s' = { s with pendingHeadChanges := s'.pendingHeadChanges }
  moved : s.atKind .work = false → s.mergeInFlight = false → s'.currentHead ≠ s.currentHead →
    RestartsChecks s s' ∨ SentBack target s s' A ∨ OnlyNoted s s' A ∨ AskedAgain s s'

namespace PipelineState

/-- Entry keeps what it skipped satisfied. -/
theorem Entry.approvalForStage_eq {i j : Nat} {sj : WorkflowStage} (he : Entry s i s' A)
    (sh : s.workflow.Shape) (hs : s.workflow.stages[j]? = some sj) (hj : j < s.landing i) :
    s'.approvalForStage sj = s.approvalForStage sj := by
  cases he with
  | @asked st action hst =>
    have heads : (s.entered (s.landing i) st).approvalHeads sj.id = s.approvalHeads sj.id := by
      unfold approvalHeads
      rw [entered_approvals]
      split_ifs
      · rw [List.filter_filter]
        congr 1
        refine List.filter_congr fun a ha => ?_
        by_cases hid : a.stageId = sj.id
        · simp [hid, (recordedBefore_iff sh hs).mpr hj]
        · simp [hid]
      · rfl
    simp [approvalForStage, heads]
  | @unexpanded st command e hst hk =>
    refine congrFun (approvalForStage_congr (s := s) ?_ ?_) sj
    · simp [failTask, clearPartial, WorkflowStage.isKind, hk, Stage.kind]
    · simp [failTask, clearPartial]
  | finished =>
    refine congrFun (approvalForStage_congr (s := s) ?_ ?_) sj
    · split_ifs <;> rfl
    · split_ifs <;> rfl

theorem Entry.attempt_eq {i : Nat} (he : Entry s i s' A) (hrec : s.Records)
    (hlt : s.landing i < s.workflow.stages.length) :
    s'.attempt = s.attempts.getD (s.landing i) 0 + 1 := by
  have hmod : (s.attempts.modify (s.landing i) (· + 1)).getD (s.landing i) 0 =
      s.attempts.getD (s.landing i) 0 + 1 := getD_modify_succ (by rw [hrec.attempts]; exact hlt)
  cases he with
  | asked => simpa [attempt] using hmod
  | unexpanded => simpa [attempt, failTask, clearPartial] using hmod
  | finished hs =>
    have := List.getElem?_eq_none_iff.mp hs
    omega

/-- Before the current stage, head-bound stages lie behind the last branch work. -/
theorem restartsChecks_of_entry (so : s.workflow.Sound) {s1 : PipelineState} {t : Nat}
    (hw : s1.workflow = s.workflow) (ht : t ≤ s.stageIndex)
    (hlen : s.stageIndex < s.workflow.stages.length) (hbound : s.workflow.At t (·.isHeadBound))
    (hfirst : ∀ j < t, ¬ s.workflow.At j (·.isHeadBound)) (he : Entry s1 t s' A) :
    RestartsChecks s s' := by
  obtain ⟨st, hst, hb⟩ := hbound
  have hneeds : s.workflow.At t (·.needsHead) :=
    ⟨st, hst, WorkflowStage.needsHead_of_isHeadBound hb⟩
  obtain ⟨b0, hb0, hbranch0⟩ := so.earlierBranch t hneeds
  have hidx : s'.stageIndex = s1.landing t := he.stageIndex (by rw [hw]; omega)
  cases hl : lastIndexBefore s.workflow.stages s.stageIndex (·.isBranchWork) with
  | none => exact absurd hbranch0 (lastIndexBefore_eq_none_iff.mp hl b0 (by omega))
  | some b =>
    obtain ⟨hlt, ⟨sb, hsb, hbranch⟩, -⟩ := lastIndexBefore_eq_some_iff.mp hl
    have hbt : b < t := so.workBefore t b hneeds
      ⟨sb, hsb, WorkflowStage.isKind_work_of_isBranchWork hbranch⟩
    refine ⟨b, t, hl, hbt, hidx ▸ le_landing t, ⟨st, hst, hb⟩, fun j _ hj => hfirst j hj, ?_⟩
    intro j h1 h2
    rw [hidx] at h2
    obtain ⟨sj, hsj, hsat⟩ := satisfied_of_lt_landing h1 h2
    refine ⟨sj, hw ▸ hsj, ?_⟩
    rw [he.approvalForStage_eq (hw ▸ so.toShape) hsj h2]
    exact hsat

/-- A head change while no merge is in flight. -/
theorem HeadMove.observation (so : s.workflow.Sound) (h : s.Live) {change : PendingHeadChange}
    (hf : s.mergeInFlight = false) (hinv : s'.Inv) (hm : HeadMove s change s' A) :
    ObservationRule (·.isKind .work) s s' A := by
  obtain ⟨st, hs⟩ := h.stage
  have hlen := h.index_lt
  have hwork : s.atKind .work = st.isKind .work := atKind_eq hs
  have noFlight : s.mergeInFlight = true →
      A = [] ∧ s' = { s with pendingHeadChanges := s'.pendingHeadChanges } := by
    intro hcon
    rw [hf] at hcon
    cases hcon
  refine ⟨hm.stageIndex_le h, fun hk => ?_, noFlight, fun hk _ hhead => ?_⟩
  · rw [hwork] at hk
    have same : ∀ {k : StageKind}, s.workflow.At s.stageIndex (·.isKind k) → k = .work := by
      intro k hka
      exact WorkflowStage.isKind_unique ((Workflow.at_iff hs).mp hka) hk
    have stays : A = [] ∧ (∃ (_ : s'.status = s.status), s'.stageIndex = s.stageIndex ∧
        s'.pendingWorkReason = s.pendingWorkReason) := by
      cases hm with
      | ignored => exact ⟨rfl, rfl, rfl, rfl⟩
      | recorded hn =>
        exact ⟨rfl, hn.frame.status, hn.frame.stageIndex, hn.frame.pendingWorkReason⟩
      | rechecked hn ht hb hkt hl he =>
        rcases hkt with ⟨sb, hsb, hbound⟩ | ⟨rfl, hka | hkf⟩
        · have := so.workBefore _ _ ⟨sb, hsb, WorkflowStage.needsHead_of_isHeadBound hbound⟩
            ⟨st, hs, hk⟩
          omega
        · cases same hka
        · cases same hkf
      | returned hc hd ht hsw hst hlast hcur =>
        rw [(hcur st hs).1] at hk
        cases hk
    obtain ⟨hA, hstatus, hidx, hreason⟩ := stays
    have hlive := hinv.live_of_running (hstatus.trans h.running)
    rcases hm.outstanding so h hlive with hask | ⟨-, hkept⟩
    · exact absurd (hA ▸ hask.sent).symm (hlive.outstandingActions_ne_nil (hm.workflow ▸ so))
    · exact ⟨hA, hidx, hkept.attempt, hstatus, hreason, hkept.outstanding⟩
  · rw [hwork] at hk
    have hm0 := hm
    cases hm with
    | ignored => exact absurd rfl hhead
    | recorded hn hkind hb =>
      refine Or.inr (Or.inr (Or.inl ⟨rfl, hkind.resolve_left fun hcon => ?_, hb, hn.frame, hn.branch,
        hn.children⟩))
      rw [Workflow.at_iff hs, hk] at hcon
      cases hcon
    | rechecked hn ht hb hkt hl he =>
      rcases hkt with hbound | ⟨rfl, hkind⟩
      · exact Or.inl (restartsChecks_of_entry so hn.frame.workflow ht hlen hbound hb he)
      · have hw := hn.frame.workflow
        have hland := le_antisymm hl (le_landing (s := _) s.stageIndex)
        have hidx := he.stageIndex (by rw [hw]; omega)
        have hatt := he.attempt_eq (hn.records h.ready.records) (by rw [hland, hw]; exact hlen)
        refine Or.inr (Or.inr (Or.inr ⟨hkind, hidx.trans hland, ?_⟩))
        rw [hatt, hland, hn.frame.attempts, attempt]
        omega
    | returned hc hd ht hsw hst hlast =>
      refine Or.inr (Or.inl ⟨lastIndexBefore_eq_some_iff.mpr ⟨ht,
        ⟨_, hsw, WorkflowStage.isKind_work_iff.mpr ⟨_, _, _, hst⟩⟩, hlast⟩, ?_⟩)
      have hw := hm0.workflow
      refine ⟨_, _, _, _, ?_, List.mem_cons_of_mem _ List.mem_cons_self⟩
      rw [currentStage, hw, returned_stageIndex]
      exact hsw

end PipelineState

/-- An observation is recorded, restarts checks, or sends the task back; it never advances it. -/
theorem head_observations {taskId : String} {w : ValidatedWorkflow}
    (h : (pipeline taskId w).Reachable s) (hr : s.status = .running) (change : PendingHeadChange)
    (hs : step s change.event = .ok (s', A)) : ObservationRule (·.isKind .work) s s' A := by
  have hi := invariant_of_reachable h
  have hi' := hi.step hs
  have hl := hi.inv.live_of_running hr
  have deferred : ∀ changes, s.mergeInFlight = true →
      ObservationRule (·.isKind .work) s { s with pendingHeadChanges := changes } [] := by
    intro changes hf
    refine ⟨le_rfl, fun hk => ?_, fun _ => ⟨rfl, rfl⟩, fun _ hcon => ?_⟩
    · obtain ⟨-, st, hst, hm⟩ := exists_stage_of_mergeInFlight hf
      rw [atKind_eq hst] at hk
      cases WorkflowStage.isKind_unique hk (WorkflowStage.isKind_merge_iff.mpr hm)
    · rw [hf] at hcon
      cases hcon
  have known : ObservationRule (·.isKind .work) s s [] :=
    ⟨le_rfl, fun _ => ⟨rfl, rfl, rfl, rfl, rfl, rfl⟩, fun _ => ⟨rfl, rfl⟩,
      fun _ _ hne => absurd rfl hne⟩
  cases change with
  | commitCreated head patch =>
    cases step_eq_ok_iff.mp hs with
    | commitKnown =>
      split_ifs with hf
      · exact deferred _ hf
      · exact known
    | commitDeferred hf => exact deferred _ hf
    | commitCreated _ _ hf _ _ he => exact (hl.headMove hi.sound he).observation hi.sound hl hf hi'.inv
  | mainAdvanced head patch conflict =>
    cases step_eq_ok_iff.mp hs with
    | advanceDeferred hf => exact deferred _ hf
    | mainAdvanced _ _ hf _ he => exact (hl.headMove hi.sound he).observation hi.sound hl hf hi'.inv

/-- A commit pushed while the built-in workflow waits for its review. -/
theorem head_observations_builtin :
    let s := scripted .builtinCode [.start, .workCompleted "work" 1 (.branch "b" "h" "p"),
      .submitted "submit" 1 none, .commandFinished "checks" 1 (some "h") (some 0)]
    let change : PendingHeadChange := .commitCreated "h'" "p'"
    (deliver s change.event).stageIndex < s.stageIndex ∧
      ObservationRule (·.isKind .work) s (deliver s change.event) (emitted s change.event) := by
  intro s change
  exact ⟨by decide +kernel, head_observations (reachable_scripted _ _) (by decide +kernel) change
    (step_eq_deliver (by decide +kernel))⟩

/-- Branch work, its notes, and a look at both before the branch that is merged. -/
def draftedCode : ValidatedWorkflow :=
  ⟨{ Workflow.builtinCode with
      stages := [.new "draft" (.work "dev" "" .branch), .new "notes" (.work "dev" "" .result),
        .new "look" (.approval (.role "reviewer") 1 false)] ++ Workflow.builtinCode.stages },
    ["dev", "reviewer"], by decide +kernel⟩

/-- A rebase with another patch goes back to the last work stage, here not a branch work. -/
theorem observation_returns_to_any_work : ¬ ∀ (w : ValidatedWorkflow) (s s' : PipelineState)
    (change : PendingHeadChange) (A : List PipelineAction), (pipeline "task" w).Reachable s →
      s.status = .running → step s change.event = .ok (s', A) →
      ObservationRule (·.isBranchWork) s s' A := by
  intro hall
  have hrule := hall draftedCode (scripted draftedCode [.start,
    .workCompleted "draft" 1 (.branch "b" "h" "p"), .workCompleted "notes" 1 (.result "" none)]) _
    (.mainAdvanced "h'" "p'" false) _ (reachable_scripted _ _) (by decide +kernel)
    (step_eq_deliver (by decide +kernel))
  rcases hrule.moved (by decide +kernel) (by decide +kernel) (by decide +kernel) with
    ⟨b, t, -, hbt, ht, hbound, -⟩ | ⟨hlast, -⟩ | ⟨hA, -⟩ | ⟨-, hidx, -⟩
  · have hone : t = 1 := by
      have : t ≤ 1 := le_trans ht (by decide +kernel)
      omega
    rw [hone, ← Workflow.any_getElem?_iff] at hbound
    exact absurd hbound (by decide +kernel)
  · exact absurd hlast (by decide +kernel)
  · exact absurd hA (by decide +kernel)
  · exact absurd hidx (by decide +kernel)

end Agend.Pipeline
