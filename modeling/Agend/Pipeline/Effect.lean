import Agend.Pipeline.Invariant

/-! What an accepted event does to the position of the task: it starts, advances, moves back,
opens the same stage again, ends, or stays. -/
namespace Agend.Pipeline

open PipelineState

/-- The event reports that a stage produced what it was asked for. -/
def PipelineEvent.succeeds : PipelineEvent → Bool
  | .workCompleted _ _ _ | .submitted _ _ _ | .approvalGranted _ _ _ _ _
  | .fanoutCompleted _ _ _ _ => true
  | .commandFinished _ _ _ exitCode => exitCode = some 0
  | _ => false

/-- The event reports that a stage failed. -/
def PipelineEvent.fails : PipelineEvent → Bool
  | .changesRequested _ _ _ _ _ | .stageFailed _ _ _ => true
  | .commandFinished _ _ _ exitCode => exitCode ≠ some 0
  | _ => false

def PipelineEvent.isTimeout : PipelineEvent → Bool
  | .stageTimedOut _ _ => true
  | _ => false

def PendingHeadChange.event : PendingHeadChange → PipelineEvent
  | .commitCreated head patchId => .commitCreated head patchId
  | .mainAdvanced head patchId conflict => .mainAdvanced head patchId conflict

/-- The event is a result for the running stage and its attempt. -/
def Answers (s : PipelineState) (st : WorkflowStage) (e : PipelineEvent) : Prop :=
  ∃ identity, e.identity = some identity ∧ Current s st identity.stageId identity.attempt

/-- The records may differ; the task is at the same place. -/
structure SamePlace (s s' : PipelineState) : Prop where
  workflow : s'.workflow = s.workflow
  stageIndex : s'.stageIndex = s.stageIndex
  status : s'.status = s.status
  attempts : s'.attempts = s.attempts
  notifiedTimeout : s'.notifiedTimeout = s.notifiedTimeout
  pendingWorkReason : s'.pendingWorkReason = s.pendingWorkReason

theorem PipelineState.Frame.samePlace {s s' : PipelineState} (h : Frame s s') : SamePlace s s' :=
  ⟨h.workflow, h.stageIndex, h.status, h.attempts, h.notifiedTimeout, h.pendingWorkReason⟩

/-- `ReassignStage` and `CancelFanoutSiblings`: sent along with requests, never repeated. -/
def PipelineAction.isNotice : PipelineAction → Bool
  | .reassignStage _ | .cancelFanoutSiblings _ _ => true
  | _ => false

/-- The stage and attempt a request or its timeout is for; notices and results have none. -/
def PipelineAction.identity : PipelineAction → Option (String × Nat)
  | .assignWork stageId attempt _ => some (stageId, attempt)
  | .returnToWork stageId attempt _ _ => some (stageId, attempt)
  | .submit stageId attempt _ => some (stageId, attempt)
  | .runCommand stageId attempt _ _ _ _ _ _ => some (stageId, attempt)
  | .requestApproval stageId attempt _ _ _ => some (stageId, attempt)
  | .merge stageId attempt _ => some (stageId, attempt)
  | .fanout stageId attempt _ _ _ _ => some (stageId, attempt)
  | .scheduleTimeout stageId attempt _ _ => some (stageId, attempt)
  | .cancelFanoutSiblings _ _ | .notifyTimeout _ | .reassignStage _ | .taskCancelled _ _
  | .taskFailed _ _ | .taskDone _ => none

theorem PipelineAction.identity_of_isNotice {a : PipelineAction} (h : a.isNotice = true) :
    a.identity = none := by
  cases a <;> first | rfl | cases h

inductive Effect (s : PipelineState) :
    PipelineEvent → PipelineState → List PipelineAction → Prop
  | begun {s' A} (hp : s.status = .pending) (he : Entry { s with status := .running } 0 s' A) :
      Effect s .start s' A
  | advanced {st e s1 s' B} {notices : List PipelineAction} (hc : Answers s st e) (hs : e.succeeds = true)
      (hm : st.stage ≠ .merge) (hf : SamePlace s s1) (hn : ∀ a ∈ notices, a.isNotice = true)
      (he : Entry s1 (s.stageIndex + 1) s' B) : Effect s e s' (notices ++ B)
  | counted {st id n reviewer head child s'} (hc : Current s st id n)
      (hk : st.isKind .approval = true) (hr : reviewer ∉ s.approvalReviewers)
      (hs : s'.approvalReviewers = s.approvalReviewers ++ [reviewer])
      (h : ∃ pick, s' = { s with pendingPick := pick, approvalReviewers := s'.approvalReviewers }) :
      Effect s (.approvalGranted id n reviewer head child) s' []
  | noted {e changes} (hr : s.status = .running)
      (hm : changes = s.pendingHeadChanges ∨ s.mergeInFlight = true) (he : e.identity = none) :
      Effect s e { s with pendingHeadChanges := changes } []
  | headMoved {e change s' A} (he : e = change.event) (hr : s.status = .running)
      (hf : s.mergeInFlight = false) (hm : HeadMove s change s' A) : Effect s e s' A
  | failed {st e reason s' A} (hc : Answers s st e) (hs : e.fails = true)
      (hf : s.mergeInFlight = false) (hm : FailMove s reason s' A) : Effect s e s' A
  | notified {st id n} (hc : Current s st id n) (ha : st.effectiveTimeoutAction = .notify)
      (hn : s.notifiedTimeout ≠ some (s.stageIndex, s.attempt)) :
      Effect s (.stageTimedOut id n)
        { s with notifiedTimeout := some (s.stageIndex, s.attempt) } [.notifyTimeout id]
  | reassigned {st id n s' B} (hc : Current s st id n) (hf : s.mergeInFlight = false)
      (ha : st.effectiveTimeoutAction = .reassign) (he : Entry s s.stageIndex s' B) :
      Effect s (.stageTimedOut id n) s' (.reassignStage id :: B)
  | mergeFailed {st id n head reason s' A} (hc : Current s st id n) (hst : st.stage = .merge)
      (hm : MergeBack s s' A) : Effect s (.mergeFailed id n head reason) s' A
  | ended {e s' A} (hw : s'.workflow = s.workflow) (ha : s'.attempts = s.attempts)
      (ht : s'.status.isTerminal = true) (hA : ∀ a ∈ A, a.identity = none) : Effect s e s' A

variable {s s' : PipelineState} {e : PipelineEvent} {A : List PipelineAction}

theorem Effect.quiet {s1 : PipelineState} {st : WorkflowStage} (hc : Answers s st e)
    (hs : e.succeeds = true) (hm : st.stage ≠ .merge) (hf : SamePlace s s1)
    (he : Entry s1 (s.stageIndex + 1) s' A) : Effect s e s' A :=
  @advanced s st e s1 s' A [] hc hs hm hf (by simp) he

theorem PipelineState.isNotice_of_keepOnlyWinner {winner : String} :
    ∀ a ∈ (s.keepOnlyWinner winner).2, a.isNotice = true := by
  intro a ha
  unfold keepOnlyWinner at ha
  simp only at ha
  split_ifs at ha
  · cases ha
  · rw [List.mem_singleton.mp ha]
    rfl

theorem Accepted.effect (so : s.workflow.Sound) (h : s.Inv) (ha : Accepted s e s' A) :
    Effect s e s' A := by
  cases ha with
  | start hp hne he => exact .begun hp (enterStage_eq_ok_iff.mp he)
  | workCompleted hc hst hm he =>
    exact .quiet ⟨_, rfl, hc⟩ rfl (by simp [hst]) frame_takeProduct.samePlace
      (enterStage_eq_ok_iff.mp he)
  | submitted hc hst he =>
    exact .quiet ⟨_, rfl, hc⟩ rfl (by simp [hst]) (by constructor <;> rfl)
      (enterStage_eq_ok_iff.mp he)
  | commandPassed hc hst he =>
    exact .quiet ⟨_, rfl, hc⟩ rfl (by simp [hst]) frame_recordPass.samePlace
      (enterStage_eq_ok_iff.mp he)
  | commandFailed hc hst hx he =>
    have hl := h.live_of_running hc.running
    exact .failed ⟨_, rfl, hc⟩ (by simp [PipelineEvent.fails, hx])
      (not_inFlight_of_current hc (by simp [hst])) (hl.failMove so he)
  | approvalCounted hc hst hb hr hp hlt =>
    have hk := WorkflowStage.isKind_approval_iff.mpr ⟨_, _, _, hst⟩
    rcases choosePick_eq hp with ⟨rfl, -⟩ | ⟨winner, -, rfl, -⟩
    · exact .counted hc hk hr rfl ⟨_, rfl⟩
    · exact .counted hc hk hr rfl ⟨some winner, rfl⟩
  | approvalMet hc hst hb hr hp hge he =>
    rcases choosePick_eq hp with ⟨rfl, -⟩ | ⟨_, -, rfl, -⟩
    all_goals
      rcases completeApproval_eq_ok he with ⟨-, hE⟩ | ⟨winner, B, -, -, hE, rfl⟩
      · exact .quiet ⟨_, rfl, hc⟩ rfl (by simp [hst]) (by constructor <;> rfl)
          (enterStage_eq_ok_iff.mp hE)
      · exact .advanced ⟨_, rfl, hc⟩ rfl (by simp [hst]) (by constructor <;> rfl)
          isNotice_of_keepOnlyWinner (enterStage_eq_ok_iff.mp hE)
  | changesRequested hc hst hb he =>
    exact .failed ⟨_, rfl, hc⟩ rfl (not_inFlight_of_current hc (by simp [hst]))
      ((h.live_of_running hc.running).failMove so he)
  | commitKnown _ hr hs hw hh =>
    split_ifs with hf
    · exact .noted hr (Or.inr hf) rfl
    · exact .noted hr (Or.inl rfl) rfl
  | commitDeferred hf hw hh =>
    exact .noted (exists_stage_of_mergeInFlight hf).1 (Or.inr hf) rfl
  | commitCreated hr hs hf hw hh he =>
    exact .headMoved (by rfl) hr hf ((h.live_of_running hr).headMove so he)
  | advanceDeferred hf hw =>
    exact .noted (exists_stage_of_mergeInFlight hf).1 (Or.inr hf) rfl
  | mainAdvanced hr hs hf hw he =>
    exact .headMoved (by rfl) hr hf ((h.live_of_running hr).headMove so he)
  | fanoutCompleted hc hst hj hch he =>
    exact .quiet ⟨_, rfl, hc⟩ rfl (by simp [hst]) (by constructor <;> rfl)
      (enterStage_eq_ok_iff.mp he)
  | fanoutFirst hc hst hch hw he =>
    obtain ⟨B, hE, rfl⟩ := after_eq_ok_iff.mp he
    exact .advanced ⟨_, rfl, hc⟩ rfl (by simp [hst]) (by constructor <;> rfl)
      isNotice_of_keepOnlyWinner (enterStage_eq_ok_iff.mp hE)
  | stageFailed hc hf he =>
    exact .failed ⟨_, rfl, hc⟩ rfl hf ((h.live_of_running hc.running).failMove so he)
  | timeoutNotified hc hf ha hn => exact .notified hc ha hn
  | timeoutReassigned hc hf hac he =>
    obtain ⟨B, hE, rfl⟩ := after_eq_ok_iff.mp he
    exact .reassigned hc hf hac (enterStage_eq_ok_iff.mp hE)
  | timeoutCancelled => exact .ended rfl rfl rfl (by simp [cancelTask, PipelineAction.identity])
  | cancelledPending => exact .ended rfl rfl rfl (by simp [cancelTask, PipelineAction.identity])
  | cancelledRunning => exact .ended rfl rfl rfl (by simp [cancelTask, PipelineAction.identity])
  | mergeFailed hc hst hh he =>
    have hm := (h.live_of_running hc.running).mergeBack so
      ⟨_, hc.stage, WorkflowStage.isKind_merge_iff.mpr hst⟩ he
    exact .mergeFailed hc hst hm.2.2
  | mergeCompleted => exact .ended rfl rfl rfl (by simp [PipelineAction.identity])

/-! Attempts only grow, and a task found elsewhere has opened an attempt there. -/

structure Later (s s' : PipelineState) : Prop where
  grows : ∀ i, s.attempts.getD i 0 ≤ s'.attempts.getD i 0
  opened : s'.status = .running → s'.stageIndex = s.stageIndex ∧ s'.attempts = s.attempts ∨
    s.attempts.getD s'.stageIndex 0 < s'.attempt
  started : s'.status ≠ .pending

theorem Later.isTerminal (h : Later s s') (hr : s'.status ≠ .running) :
    s'.status.isTerminal = true := by
  have := h.started
  cases hs : s'.status <;> simp_all [PipelineStatus.isTerminal]

theorem Later.trans {s1 : PipelineState} (h : Later s s1) (hr : s1.status = .running)
    (h' : Later s1 s') : Later s s' := by
  refine ⟨fun i => (h.grows i).trans (h'.grows i), fun hrun => ?_, h'.started⟩
  rcases h'.opened hrun with ⟨hi, ha⟩ | hlt
  · have hatt : s'.attempt = s1.attempt := by rw [attempt, attempt, hi, ha]
    rw [hi, ha, hatt]
    exact h.opened hr
  · exact Or.inr (lt_of_le_of_lt (h.grows _) hlt)

theorem Later.same (hr : s.status = .running) (hi : s'.stageIndex = s.stageIndex)
    (ha : s'.attempts = s.attempts) (hs : s'.status = s.status) : Later s s' :=
  ⟨fun i => by rw [ha], fun _ => Or.inl ⟨hi, ha⟩, by rw [hs, hr]; simp⟩

namespace PipelineState

variable {s1 : PipelineState} {i : Nat}

theorem later_of_opened (hlt : s'.stageIndex < s.attempts.length)
    (ha : s'.attempts = s.attempts.modify s'.stageIndex (· + 1)) (hp : s'.status ≠ .pending) :
    Later s s' := by
  refine ⟨fun i => ?_, fun _ => Or.inr ?_, hp⟩
  · rw [ha]
    exact getD_le_getD_modify
  · rw [attempt, ha, getD_modify_succ hlt]
    omega

theorem Entry.later (he : Entry s1 i s' A) (hr : s1.status = .running) (hw : s1.workflow = s.workflow)
    (ha : s1.attempts = s.attempts) (hrec : s.Records) : Later s s' := by
  cases he with
  | asked hs =>
    have hlt := (List.getElem?_eq_some_iff.mp hs).1
    refine later_of_opened ?_ (by simp [ha]) (by simp [hr])
    rw [hrec.attempts, ← hw]
    exact hlt
  | unexpanded hs =>
    have hlt := (List.getElem?_eq_some_iff.mp hs).1
    refine later_of_opened ?_ (by simp [failTask, clearPartial, ha]) (by simp [failTask, clearPartial])
    rw [hrec.attempts, ← hw]
    exact hlt
  | finished =>
    refine ⟨fun j => ?_, fun hcon => ?_, ?_⟩
    · split_ifs <;> simp [finish, settle, ha]
    · split_ifs at hcon <;> cases hcon
    · split_ifs <;> simp [finish]

theorem later_returned {t : Nat} {reason : String} (hr : s1.status = .running) (ha : s1.attempts = s.attempts) (hrec : s.Records)
    (ht : t < s.workflow.stages.length) : Later s (s1.returned t reason) :=
  later_of_opened (by rw [hrec.attempts]; exact ht) (by simp [ha]) (by simp [hr])

theorem HeadMove.later (h : s.Live) {change : PendingHeadChange} (hm : HeadMove s change s' A) :
    Later s s' := by
  have hlen := h.index_lt
  cases hm with
  | ignored => exact .same h.running rfl rfl rfl
  | recorded hn => exact .same h.running hn.frame.stageIndex hn.frame.attempts hn.frame.status
  | rechecked hn _ _ _ _ he =>
    exact he.later (hn.frame.status.trans h.running) hn.frame.workflow hn.frame.attempts
      h.ready.records
  | returned hc hd ht =>
    rcases hd with ⟨-, hn⟩ | ⟨-, rfl⟩
    · exact later_returned (hn.frame.status.trans h.running) hn.frame.attempts
        h.ready.records (by omega)
    · exact later_returned h.running rfl h.ready.records (by omega)

theorem FailMove.later (h : s.Live) {reason : String} (hm : FailMove s reason s' A) : Later s s' := by
  have hlen := h.index_lt
  cases hm with
  | returned hf htarget ht => exact later_returned h.running rfl h.ready.records (by omega)
  | failed => exact ⟨fun _ => le_rfl, by rintro ⟨⟩, by rintro ⟨⟩⟩

theorem MergeBack.later (so : s.workflow.Sound) (h : s.Live) (hm : MergeBack s s' A) :
    Later s s' := by
  cases hm with
  | repeated ht hb he => exact he.later h.running rfl rfl h.ready.records
  | moved hf happ =>
    obtain ⟨s2, B, heq, -, -, -, hP⟩ := applyPending_rule
      (s := { s with pendingHeadChanges := [] }) (P := fun s2 _ => Later s s2)
      (fun s2 s3 change last A so2 h2 _ hmv hlater => hlater.trans h2.running (hmv.later h2))
      so (.live h.clearPending) rfl s.pendingHeadChanges [] (.same h.running rfl rfl rfl)
    rw [heq] at happ
    cases happ
    exact hP

end PipelineState

theorem Effect.later (so : s.workflow.Sound) (h : s.Inv) (he : Effect s e s' A) : Later s s' := by
  cases he with
  | begun hp he => exact he.later rfl rfl rfl h.records
  | advanced hc hs hm hf hn he =>
    obtain ⟨_, _, hcur⟩ := hc
    exact he.later (hf.status.trans hcur.running) hf.workflow hf.attempts h.records
  | counted hc hk hr hs hpick =>
    obtain ⟨pick, heq⟩ := hpick
    rw [heq]
    exact .same hc.running rfl rfl rfl
  | noted hr => exact .same hr rfl rfl rfl
  | headMoved hev hr hf hm => exact hm.later (h.live_of_running hr)
  | failed hc hs hf hm =>
    obtain ⟨_, _, hcur⟩ := hc
    exact hm.later (h.live_of_running hcur.running)
  | notified hc => exact .same hc.running rfl rfl rfl
  | reassigned hc hf ha he => exact he.later hc.running rfl rfl h.records
  | mergeFailed hc hst hm => exact hm.later so (h.live_of_running hc.running)
  | ended hw ha ht hA =>
    refine ⟨fun i => by rw [ha], fun hr => ?_, fun hp => ?_⟩
    · rw [hr] at ht
      cases ht
    · rw [hp] at ht
      cases ht

/-! A task that stopped asks for nothing. -/

namespace PipelineState

theorem Entry.ne_nil {i : Nat} (he : Entry s i s' A) : A ≠ [] := by
  cases he <;> simp [failTask]

theorem Entry.silent {i : Nat} (he : Entry s i s' A) (hr : s.status = .running)
    (hs : s'.status ≠ .running) : ∀ a ∈ A, a.identity = none := by
  cases he with
  | asked => exact absurd (by simpa using hr) hs
  | unexpanded => simp [failTask, PipelineAction.identity]
  | finished => simp [PipelineAction.identity]

theorem HeadMove.silent (h : s.Live) {change : PendingHeadChange} (hm : HeadMove s change s' A)
    (hs : s'.status ≠ .running) : ∀ a ∈ A, a.identity = none := by
  cases hm with
  | ignored => simp
  | recorded => simp
  | rechecked hn _ _ _ _ he => exact he.silent (hn.frame.status.trans h.running) hs
  | returned hc hd =>
    refine absurd ?_ hs
    rw [returned_status]
    rcases hd with ⟨-, hn⟩ | ⟨-, rfl⟩
    · exact hn.frame.status.trans h.running
    · exact h.running

theorem MergeBack.silent (so : s.workflow.Sound) (h : s.Live) (hm : MergeBack s s' A)
    (hs : s'.status ≠ .running) : ∀ a ∈ A, a.identity = none := by
  cases hm with
  | repeated ht hb he => exact he.silent h.running hs
  | moved hf happ =>
    obtain ⟨s1, B, heq, -, -, -, hP⟩ := applyPending_rule
      (s := { s with pendingHeadChanges := [] })
      (P := fun s1 last => s1.status ≠ .running → ∀ a ∈ last, a.identity = none) (by
      intro s1 s2 change last A _ h1 _ hmv _ hne
      split_ifs with hA
      · rcases List.isEmpty_iff.mp hA with rfl
        cases hmv with
        | ignored => exact absurd h1.running hne
        | recorded hn => exact absurd (hn.frame.status.trans h1.running) hne
        | rechecked hn _ _ _ _ he => exact absurd rfl he.ne_nil
      · exact hmv.silent h1 hne) so (.live h.clearPending) rfl s.pendingHeadChanges []
      (fun hcon => absurd h.running hcon)
    rw [heq] at happ
    cases happ
    exact hP hs

end PipelineState

theorem Effect.silent (so : s.workflow.Sound) (h : s.Inv) (he : Effect s e s' A)
    (hs : s'.status ≠ .running) : ∀ a ∈ A, a.identity = none := by
  cases he with
  | begun hp he => exact he.silent rfl hs
  | advanced hc hsu hm hf hn he =>
    obtain ⟨_, _, hcur⟩ := hc
    intro a ha
    rcases List.mem_append.mp ha with ha | ha
    · exact PipelineAction.identity_of_isNotice (hn a ha)
    · exact he.silent (hf.status.trans hcur.running) hs a ha
  | counted | noted => simp
  | headMoved hev hr hf hm => exact hm.silent (h.live_of_running hr) hs
  | failed hc hfa hf hm =>
    obtain ⟨_, _, hcur⟩ := hc
    cases hm with
    | returned => exact absurd (by simpa using hcur.running) hs
    | failed => simp [failTask, PipelineAction.identity]
  | notified hc => exact absurd hc.running hs
  | reassigned hc hf ha he =>
    intro a hm
    rcases List.mem_cons.mp hm with rfl | hm
    · rfl
    · exact he.silent hc.running hs a hm
  | mergeFailed hc hst hm => exact hm.silent so (h.live_of_running hc.running) hs
  | ended hw ha ht hA => exact hA

end Agend.Pipeline
