import Agend.Pipeline.Outstanding

/-! The reason of a rework stays with the work stage until the work is done. -/
namespace Agend.Pipeline

open PipelineState

/-- The action returns this stage to work for the reason. -/
def PipelineAction.reworkReason (stageId : String) : PipelineAction → Option String
  | .returnToWork id _ _ reason => if id = stageId then some reason else none
  | _ => none

/-- The reason of the rework the stage still owes, after the steps of a run, newest first. -/
def owedReason (stageId : String) : List PipelineTransition → Option String
  | [] => none
  | t :: earlier =>
    if t.after.status.isTerminal then none
    else match t.output.findSome? (PipelineAction.reworkReason stageId) with
      | some reason => some reason
      | none =>
        match t.event with
        | .workCompleted id _ _ => if id = stageId then none else owedReason stageId earlier
        | _ => owedReason stageId earlier

/-- A request for the stage's work hands over the reason. -/
def PipelineAction.HandsOver (stageId reason : String) : PipelineAction → Prop
  | .assignWork id _ _ => id ≠ stageId
  | .returnToWork id _ _ reason' => id = stageId → reason' = reason
  | _ => True

/-- Every request for owed work, the last step's and a restart's, hands over the latest reason. -/
def ReasonsHandedOver (history : List PipelineTransition) (s : PipelineState) : Prop :=
  ∀ stageId reason, owedReason stageId history = some reason →
    (∀ a ∈ s.outstandingActions, a.HandsOver stageId reason) ∧
    ∀ t ∈ history.head?, ∀ a ∈ t.output, a.HandsOver stageId reason

def PipelineEvent.isStageFailed : PipelineEvent → Bool
  | .stageFailed _ _ _ => true
  | _ => false

/-- The step gives reworked work away without its reason: a timeout reassigns it, or it fails over
to the target of its own `on_fail`. -/
def dropsReason (t : PipelineTransition) : Bool :=
  t.before.pendingWorkReason.isSome && t.before.currentStage.any fun st =>
    t.event.isTimeout && st.effectiveTimeoutAction = .reassign ||
      t.event.isStageFailed && st.onFail.isSome

variable {taskId : String} {w : ValidatedWorkflow} {s s' : PipelineState} {e : PipelineEvent}
  {A : List PipelineAction} {stageId reason : String}

/-- The task is at the owed work and knows the reason. -/
structure Owing (s : PipelineState) (stageId reason : String) : Prop where
  running : s.status = .running
  reason : s.pendingWorkReason = some reason
  stage : ∃ st, s.workflow.stages[s.stageIndex]? = some st ∧ st.id = stageId ∧
    st.isKind .work = true

theorem requestOf_ne_returnToWork {i n : Nat} {st : WorkflowStage} {id role reason : String}
    {m : Nat} : s.requestOf i st n ≠ some (.returnToWork id m role reason) := by
  intro h
  unfold requestOf at h
  split at h
  · cases h
  · cases h
  · split at h <;> cases h
  · cases h
  · obtain ⟨head, -, hcon⟩ := Option.map_eq_some_iff.mp h
    cases hcon
  · cases h

/-- A live task asks for rework only at the stage that owes it. -/
theorem PipelineState.Live.owing (so : s.workflow.Sound) (h : s.Live) {n : Nat} {role : String}
    (ha : .returnToWork stageId n role reason ∈ s.outstandingActions) :
    Owing s stageId reason := by
  obtain ⟨st, hs⟩ := h.stage
  obtain ⟨action, hr⟩ := h.exists_request so hs s.attempt
  rw [h.outstandingActions_eq so hs hr] at ha
  rcases List.mem_append.mp ha with ha | ha
  · split_ifs at ha
    · cases ha
    · cases List.mem_singleton.mp ha
  · have ha := List.mem_singleton.mp ha
    unfold withReason at ha
    split at ha
    · cases ha
      rename_i hreason
      refine ⟨h.running, hreason, st, hs, ?_, ?_⟩
      · have := identity_of_requestOf hr
        cases this
        rfl
      · exact (Workflow.at_iff hs).mp (h.reason (by simp [hreason])).1
    · exact absurd (ha ▸ hr) requestOf_ne_returnToWork

/-- At owed work every request hands over the reason. -/
theorem Owing.handsOver (so : s.workflow.Sound) (h : s.Live) (ho : Owing s stageId reason) :
    ∀ a ∈ s.outstandingActions, a.HandsOver stageId reason := by
  obtain ⟨st, hs, hid, hk⟩ := ho.stage
  obtain ⟨role, text, output, hst⟩ := WorkflowStage.isKind_work_iff.mp hk
  have hr : s.requestOf s.stageIndex st s.attempt = some (.assignWork st.id s.attempt role) := by
    rw [requestOf, hst]
  intro a ha
  rw [h.outstandingActions_eq so hs hr, ho.reason] at ha
  rcases List.mem_append.mp ha with ha | ha
  · split_ifs at ha
    · cases ha
    · rw [List.mem_singleton.mp ha]
      trivial
  · rw [List.mem_singleton.mp ha]
    exact fun _ => rfl

/-- At a work stage only its completion succeeds, and only `StageFailed` fails. -/
theorem Accepted.at_work (ha : Accepted s e s' A) {st : WorkflowStage}
    (hs : s.workflow.stages[s.stageIndex]? = some st) (hk : st.isKind .work = true) :
    (e.succeeds = true → ∃ n product, e = .workCompleted st.id n product) ∧
      (e.fails = true → ∃ id n reason, e = .stageFailed id n reason) := by
  have other : ∀ {id : String} {n : Nat} {st' : WorkflowStage},
      Current s st' id n → st'.stage.kind ≠ .work → False := by
    intro id n st' hc hne
    obtain rfl := Option.some.inj (hs.symm.trans hc.stage)
    exact hne (WorkflowStage.isKind_iff.mp hk)
  cases ha with
  | workCompleted hc hst =>
    obtain rfl := Option.some.inj (hs.symm.trans hc.stage)
    exact ⟨fun _ => ⟨_, _, by rw [hc.id]⟩, by rintro ⟨⟩⟩
  | submitted hc hst | commandPassed hc hst | commandFailed hc hst | approvalCounted hc hst
  | approvalMet hc hst | changesRequested hc hst | fanoutCompleted hc hst | fanoutFirst hc hst =>
    exact (other hc (by simp [hst, Stage.kind])).elim
  | stageFailed => exact ⟨by rintro ⟨⟩, fun _ => ⟨_, _, _, rfl⟩⟩
  | _ => exact ⟨by rintro ⟨⟩, by rintro ⟨⟩⟩

/-- Rework is owed until it is done, unless a step drops its reason. -/
theorem Owing.step (hi : Invariant taskId w s) (hs : step s e = .ok (s', A))
    (ho : Owing s stageId reason) (hlive : s'.Live) (hkeep : dropsReason ⟨s, e, s', A⟩ = false)
    (hev : ∀ n product, e ≠ .workCompleted stageId n product) : Owing s' stageId reason := by
  have ha := step_eq_ok_iff.mp hs
  obtain ⟨st, hst, hid, hk⟩ := ho.stage
  obtain ⟨hsucc, hfail⟩ := ha.at_work hst hk
  have same : ∀ {st' : WorkflowStage} {k : StageKind}, s.workflow.stages[s.stageIndex]? = some st' →
      st'.isKind k = true → k = .work := by
    intro st' k hs' hk'
    obtain rfl := Option.some.inj (hst.symm.trans hs')
    exact WorkflowStage.isKind_unique hk' hk
  obtain ⟨hkept, hfailed⟩ : (e.isTimeout = true → ¬ st.effectiveTimeoutAction = .reassign) ∧
      (e.isStageFailed = true → st.onFail = none) := by
    simpa [dropsReason, ho.reason, currentStage, hst] using hkeep
  have stay : ∀ {s1 : PipelineState}, s1.workflow = s.workflow → s1.stageIndex = s.stageIndex →
      s1.status = s.status → s1.pendingWorkReason = s.pendingWorkReason →
      Owing s1 stageId reason := fun hw hidx hrun hr =>
    ⟨hrun.trans ho.running, hr.trans ho.reason, st, by rw [hw, hidx]; exact hst, hid, hk⟩
  cases ha.effect hi.sound hi.inv with
  | begun hp =>
    rw [ho.running] at hp
    cases hp
  | advanced hc hsu =>
    obtain ⟨n, product, rfl⟩ := hsucc hsu
    exact absurd (by rw [hid]) (hev n product)
  | counted hc hka => cases same hc.stage hka
  | noted => exact stay rfl rfl rfl rfl
  | headMoved hev hr hf hm =>
    cases hm with
    | ignored => exact ho
    | recorded hn =>
      exact stay hn.frame.workflow hn.frame.stageIndex hn.frame.status hn.frame.pendingWorkReason
    | rechecked hn ht hb hkt hl he =>
      -- The recheck target lies behind the last work stage.
      rcases hkt with ⟨sb, hsb, hbound⟩ | ⟨rfl, ⟨sk, hsk, hka⟩ | ⟨sk, hsk, hkf⟩⟩
      · have := hi.sound.workBefore _ _
          ⟨sb, hsb, WorkflowStage.needsHead_of_isHeadBound hbound⟩ ⟨st, hst, hk⟩
        omega
      · cases same hsk hka
      · cases same hsk hkf
    | returned hc hd ht hsw hstw hlast hcur =>
      rw [(hcur st hst).1] at hk
      cases hk
  | failed hc hfa hf hm =>
    obtain ⟨id, n, r, rfl⟩ := hfail hfa
    cases hm with
    | returned hfs htarget =>
      obtain rfl := Option.some.inj (hst.symm.trans hfs)
      have hnone := hfailed rfl
      have hcmd : st.isKind .command = false := by
        rw [Bool.eq_false_iff]
        intro hcon
        cases WorkflowStage.isKind_unique hcon hk
      have happ : st.isKind .approval = false := by
        rw [Bool.eq_false_iff]
        intro hcon
        cases WorkflowStage.isKind_unique hcon hk
      simp [failureTarget, hnone, hcmd, happ] at htarget
    | failed => cases hlive.running
  | notified => exact stay rfl rfl rfl rfl
  | reassigned hc hf hact =>
    obtain rfl := Option.some.inj (hst.symm.trans hc.stage)
    exact absurd hact (hkept rfl)
  | mergeFailed hc hstm => cases same hc.stage (WorkflowStage.isKind_merge_iff.mpr hstm)
  | ended _ _ ht =>
    rw [hlive.running] at ht
    cases ht

/-- Along a run that drops no reason, owed work is where the task is. -/
theorem owing_of_run {history : List PipelineTransition} (hr : (pipeline taskId w).Run history s)
    (hkeep : ∀ t ∈ history, dropsReason t = false) (ho : owedReason stageId history = some reason) :
    Owing s stageId reason := by
  induction hr with
  | start => cases ho
  | @snoc h s s' e A hr hs ih =>
    have hi := invariant_of_reachable hr.reachable
    have ha := step_eq_ok_iff.mp hs
    have hlater := (ha.effect hi.sound hi.inv).later hi.sound hi.inv
    unfold owedReason at ho
    split_ifs at ho with ht
    have hrun : s'.status = .running := by
      by_contra hne
      exact ht (hlater.isTerminal hne)
    have hlive := (hi.step hs).inv.live_of_running hrun
    have old : owedReason stageId h = some reason →
        (∀ n product, e ≠ .workCompleted stageId n product) → Owing s' stageId reason :=
      fun ho' => (ih (fun t ht => hkeep t (List.mem_cons_of_mem _ ht)) ho').step hi hs hlive
        (hkeep _ List.mem_cons_self)
    split at ho
    · rename_i reason' hfound
      obtain rfl := Option.some.inj ho
      obtain ⟨a, hmem, hreason⟩ := List.exists_of_findSome?_eq_some hfound
      unfold PipelineAction.reworkReason at hreason
      split at hreason
      · split_ifs at hreason with hid
        subst hid
        cases hreason
        exact hlive.owing (hi.step hs).sound
          (mem_outstanding_of_output ((ha.effect hi.sound hi.inv).requests hi.sound hi.inv hlive) hmem
            (by simp [PipelineAction.identity]))
      · cases hreason
    · split at ho
      · rename_i hev
        split_ifs at ho with hid
        refine old ho fun n product heq => hid ?_
        have := hev.symm.trans heq
        cases this
        rfl
      · rename_i hno
        exact old ho fun n product heq => hno _ _ _ heq

/-- Where no step drops the reason, every request for owed work hands over the latest one. -/
theorem reasons_handed_over {history : List PipelineTransition}
    (hr : (pipeline taskId w).Run history s) (hkeep : ∀ t ∈ history, dropsReason t = false) :
    ReasonsHandedOver history s := by
  intro stageId reason ho
  have howing := owing_of_run hr hkeep ho
  have hi := invariant_of_reachable hr.reachable
  have hlive := hi.inv.live_of_running howing.running
  have hout := howing.handsOver hi.sound hlive
  refine ⟨hout, fun t ht a ha => ?_⟩
  cases hr with
  | start => cases ht
  | snoc hr hs =>
    cases ht
    have hi := invariant_of_reachable hr.reachable
    have hreq := ((step_eq_ok_iff.mp hs).effect hi.sound hi.inv).requests hi.sound hi.inv hlive
    by_cases hid : a.identity = none
    · cases a <;> trivial
    · exact hout a (mem_outstanding_of_output hreq ha hid)

/-- A commit that arrives while the built-in work stage is being reworked. -/
theorem reasons_handed_over_builtin :
    let s := scripted .builtinCode [.start, .workCompleted "work" 1 (.branch "b" "h" "p"),
      .submitted "submit" 1 none, .commandFinished "checks" 1 (some "h") (some 1),
      .commitCreated "h'" "p'"]
    s.status = .running ∧ ∀ a ∈ s.outstandingActions,
      a.HandsOver "work" "command `checks` failed with exit code 1" := by
  intro s
  refine ⟨by decide +kernel, ?_⟩
  have h0 : (pipeline "task" .builtinCode).Run [] (.new "task" .builtinCode) := .start rfl
  have h1 := run_deliver h0 (e := .start) (by decide +kernel)
  have h2 := run_deliver h1 (e := .workCompleted "work" 1 (.branch "b" "h" "p"))
    (by decide +kernel)
  have h3 := run_deliver h2 (e := .submitted "submit" 1 none) (by decide +kernel)
  have h4 := run_deliver h3 (e := .commandFinished "checks" 1 (some "h") (some 1))
    (by decide +kernel)
  have h5 := run_deliver h4 (e := .commitCreated "h'" "p'") (by decide +kernel)
  exact (reasons_handed_over h5 (by decide +kernel) "work" _ (by decide +kernel)).1

/-- The built-in workflow with a work stage that is reassigned when it times out. -/
def reassignedCode : ValidatedWorkflow :=
  ⟨{ Workflow.builtinCode with
      stages := Workflow.builtinCode.stages.set 0
        { WorkflowStage.new "work" (.work "dev" "" .branch) with onTimeout := some .reassign } },
    ["dev", "reviewer"], by decide +kernel⟩

/-- Rework that times out is assigned again without its reason. -/
theorem reasons_dropped_by_reassign : ¬ ∀ (w : ValidatedWorkflow) (history : List PipelineTransition)
    (s : PipelineState), (pipeline "task" w).Run history s → ReasonsHandedOver history s := by
  intro hall
  have h0 : (pipeline "task" reassignedCode).Run [] (.new "task" reassignedCode) := .start rfl
  have h1 := run_deliver h0 (e := .start) (by decide +kernel)
  have h2 := run_deliver h1 (e := .workCompleted "work" 1 (.branch "b" "h" "p"))
    (by decide +kernel)
  have h3 := run_deliver h2 (e := .submitted "submit" 1 none) (by decide +kernel)
  have h4 := run_deliver h3 (e := .commandFinished "checks" 1 (some "h") (some 1))
    (by decide +kernel)
  have h5 := run_deliver h4 (e := .stageTimedOut "work" 2) (by decide +kernel)
  obtain ⟨hout, -⟩ := hall _ _ _ h5 "work" "command `checks` failed with exit code 1"
    (by decide +kernel)
  have hmem : .assignWork "work" 3 "dev" ∈ outstandingActions (scripted reassignedCode [.start,
      .workCompleted "work" 1 (.branch "b" "h" "p"), .submitted "submit" 1 none,
      .commandFinished "checks" 1 (some "h") (some 1), .stageTimedOut "work" 2]) := by
    decide +kernel
  exact hout _ hmem rfl

end Agend.Pipeline
