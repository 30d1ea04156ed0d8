import Agend.Pipeline.Effect
import Agend.Pipeline.Snapshot

/-! The requests rebuilt after a restart are the ones the last step left unanswered. -/
namespace Agend.Pipeline

/-- The head a request names. -/
def PipelineAction.head : PipelineAction → Option (Option String)
  | .runCommand _ _ _ head _ _ _ _ => some head
  | .requestApproval _ _ _ head _ => some head
  | .merge _ _ head => some (some head)
  | .fanout _ _ _ _ _ head => some head
  | _ => none

def PipelineEvent.isMergeFailed : PipelineEvent → Bool
  | .mergeFailed _ _ _ _ => true
  | _ => false

theorem PipelineEvent.isMergeFailed_of_succeeds {e : PipelineEvent} (h : e.succeeds = true) :
    e.isMergeFailed = false := by
  cases e <;> first | rfl | cases h

theorem PipelineEvent.isMergeFailed_of_isTimeout {e : PipelineEvent} (h : e.isTimeout = true) :
    e.isMergeFailed = false := by
  cases e <;> first | rfl | cases h

namespace PipelineState

variable {s s' : PipelineState} {st : WorkflowStage} {action : PipelineAction}
  {A : List PipelineAction}

theorem identity_of_requestOf {i n : Nat} (h : s.requestOf i st n = some action) :
    action.identity = some (st.id, n) := by
  unfold requestOf at h
  split at h
  · cases h; rfl
  · cases h; rfl
  · split at h <;> cases h
    rfl
  · cases h; rfl
  · obtain ⟨head, -, rfl⟩ := Option.map_eq_some_iff.mp h
    rfl
  · cases h; rfl

theorem requestOf_isRequest {i n : Nat} (h : s.requestOf i st n = some action) :
    isScheduleTimeout action = false ∧ action.isNotice = false := by
  unfold requestOf at h
  split at h
  · cases h; exact ⟨rfl, rfl⟩
  · cases h; exact ⟨rfl, rfl⟩
  · split at h <;> cases h
    exact ⟨rfl, rfl⟩
  · cases h; exact ⟨rfl, rfl⟩
  · obtain ⟨head, -, rfl⟩ := Option.map_eq_some_iff.mp h
    exact ⟨rfl, rfl⟩
  · cases h; exact ⟨rfl, rfl⟩

/-- The request of a stage that needs a head names the current one. -/
theorem head_of_requestOf {i n : Nat} (h : s.requestOf i st n = some action)
    (hn : st.needsHead = true) : action.head = some s.currentHead := by
  unfold requestOf at h
  rcases WorkflowStage.needsHead_iff.mp hn with hk | hk
  · rw [WorkflowStage.isKind_merge_iff.mp hk] at h
    obtain ⟨head, hh, rfl⟩ := Option.map_eq_some_iff.mp h
    simp [PipelineAction.head, hh]
  · rcases WorkflowStage.isHeadBound_iff.mp hk with hk | hk
    · obtain ⟨c, hst⟩ := WorkflowStage.isKind_command_iff.mp hk
      simp only [hst] at h
      split at h <;> cases h
      rfl
    · obtain ⟨approver, count, hst⟩ := WorkflowStage.isBoundApproval_iff.mp hk
      simp only [hst, if_true, Option.some.injEq] at h
      rw [← h]
      rfl

theorem withReason_spec (reason : Option String) (action : PipelineAction) :
    (withReason reason action).identity = action.identity ∧
      (withReason reason action).head = action.head ∧
      isScheduleTimeout (withReason reason action) = isScheduleTimeout action ∧
      (withReason reason action).isNotice = action.isNotice := by
  unfold withReason
  split <;> exact ⟨rfl, rfl, rfl, rfl⟩

namespace Live

/-- A live task waits for the result of a request it can state again. -/
theorem exists_request (so : s.workflow.Sound) (h : s.Live)
    (hs : s.workflow.stages[s.stageIndex]? = some st) (n : Nat) :
    ∃ action, s.requestOf s.stageIndex st n = some action := by
  cases hst : st.stage with
  | command c =>
    obtain ⟨text, he⟩ := h.expands st c hs hst
    simp [requestOf, hst, he]
  | merge =>
    have hk := WorkflowStage.isKind_merge_iff.mpr hst
    obtain ⟨head, hh⟩ := Option.isSome_iff_exists.mp
      (h.ready.head_isSome so ⟨st, hs, WorkflowStage.needsHead_iff.mpr (Or.inl hk)⟩).2
    simp [requestOf, hst, hh]
  | work | submit | approval | fanout => simp [requestOf, hst]

/-- No record belongs to the stage a live task waits at. -/
theorem approvals_current (so : s.workflow.Sound) (h : s.Live)
    (hs : s.workflow.stages[s.stageIndex]? = some st) :
    (s.approvals.filter fun a => a.stageId ≠ st.id) = s.approvals := by
  refine List.filter_eq_self.mpr fun a ha => ?_
  obtain ⟨i, st', hs', hid, hk, -⟩ := h.ready.records.stage_of_mem ha
  simp only [ne_eq, decide_not, Bool.not_eq_true', decide_eq_false_iff_not]
  intro hcon
  have hp' := so.stagePosition_eq hs'
  rw [hid, hcon, so.stagePosition_eq hs] at hp'
  obtain rfl := Option.some.inj hp'
  obtain rfl := Option.some.inj (hs.symm.trans hs')
  exact h.waiting st hs hk ⟨a, ha, hcon⟩

/-- Entering the current stage of the copy again only forgets a partial approval. -/
theorem entered_copy (h : s.Live) (hs : s.workflow.stages[s.stageIndex]? = some st) :
    entered { s with attempts := s.attempts.modify s.stageIndex (· - 1) } s.stageIndex st =
      { s.clearPartial with pendingWorkReason := none } := by
  have hatt : (s.attempts.modify s.stageIndex (· - 1)).modify s.stageIndex (· + 1) =
      s.attempts := by
    refine List.ext_getElem? fun j => ?_
    have hpos := h.attempt
    simp only [List.getElem?_modify, PipelineState.attempt, List.getD_eq_getElem?_getD] at hpos ⊢
    cases hj : s.attempts[j]? with
    | none => rfl
    | some n =>
      simp only [Option.map_eq_map, Option.map_some]
      split_ifs with heq
      · rw [heq, hj, Option.getD_some] at hpos
        exact congrArg some (Nat.sub_add_cancel hpos)
      · rfl
  cases hf : st.isKind .fanout with
  | false =>
    simp only [entered, opened, arrive_of_not_fanout hf, clearPartial, hatt]
  | true =>
    obtain ⟨h1, h2, h3⟩ := h.fanout ⟨st, hs, hf⟩
    have hall : (s.approvals.filter fun a => s.recordedBefore s.stageIndex a.stageId) =
        s.approvals := List.filter_eq_self.mpr h3
    simp only [recordedBefore] at hall
    simp only [entered, opened, arrive, hf, if_true, clearPartial, clearFanout, hatt, h1, h2,
      recordedBefore, hall]

/-- What a live task asks for again: its timeout unless it was reported, and its request. -/
theorem outstandingActions_eq (so : s.workflow.Sound) (h : s.Live)
    (hs : s.workflow.stages[s.stageIndex]? = some st)
    (hreq : s.requestOf s.stageIndex st s.attempt = some action) :
    s.outstandingActions =
      (if s.notifiedTimeout = some (s.stageIndex, s.attempt) then []
        else [scheduleFor st s.attempt]) ++ [withReason s.pendingWorkReason action] := by
  set copy : PipelineState := { s with attempts := s.attempts.modify s.stageIndex (· - 1) }
    with hcopy
  have hsat : copy.approvalForStage st = false := by
    rw [show copy.approvalForStage = s.approvalForStage from approvalForStage_congr rfl rfl,
      Bool.eq_false_iff]
    intro hcon
    have hk := approvalForStage_isKind hcon
    obtain ⟨approver, count, bound, hst⟩ := WorkflowStage.isKind_approval_iff.mp hk
    exact h.waiting st hs hk ((h.ready.records.approvalForStage_iff so.toShape hs hst).mp hcon)
  have hland : copy.landing s.stageIndex = s.stageIndex := landing_eq_self hs hsat
  have hent := h.entered_copy hs
  rw [← hcopy] at hent
  have hE : Entry copy s.stageIndex (copy.entered (copy.landing s.stageIndex) st)
      [scheduleFor st (copy.entered (copy.landing s.stageIndex) st).attempt, action] := by
    refine .asked (by rw [hland]; exact hs) (fun hm => ?_) ?_
    · have hg := h.ready.gate_allowed so ⟨st, hs, WorkflowStage.isKind_merge_iff.mpr hm⟩
      rw [hland]
      exact hg
    · rw [hland, hent]
      exact hreq
  rw [hland, hent] at hE
  obtain ⟨hn, -⟩ := requestOf_isRequest hreq
  unfold outstandingActions
  simp only [h.running, ne_eq, not_true_eq_false, if_false, currentStage, hs]
  have hfil := h.approvals_current so hs
  simp only [ne_eq] at hfil
  simp only [hfil]
  rw [h.running] at hcopy
  rw [← hcopy, enterStage_eq_ok_iff.mpr hE]
  by_cases hnt : s.notifiedTimeout = some (s.stageIndex, s.attempt)
  · have hsch : isScheduleTimeout (scheduleFor st
        (PipelineState.attempt { s.clearPartial with pendingWorkReason := none })) = true := rfl
    simp only [hnt, if_true, List.filter_cons, hn, hsch, Bool.not_true, Bool.not_false,
      Bool.false_eq_true, if_false, List.filter_nil, List.map_cons, List.map_nil, List.nil_append]
  · simp only [hnt, if_false, List.map_cons, List.map_nil, List.singleton_append]
    cases s.pendingWorkReason <;> rfl

theorem outstandingActions_ne_nil (so : s.workflow.Sound) (h : s.Live) :
    s.outstandingActions ≠ [] := by
  obtain ⟨st, hs⟩ := h.stage
  obtain ⟨action, hreq⟩ := h.exists_request so hs s.attempt
  rw [h.outstandingActions_eq so hs hreq]
  simp

end Live

/-- A new attempt was opened and exactly its requests were sent. -/
structure Asked (s s' : PipelineState) (A : List PipelineAction) : Prop where
  opened : s.attempts.getD s'.stageIndex 0 < s'.attempt
  sent : A = s'.outstandingActions

theorem Asked.ne (h : Asked s s' A) : (s'.stageIndex, s'.attempt) ≠ (s.stageIndex, s.attempt) := by
  intro heq
  obtain ⟨hi, ha⟩ := Prod.mk.inj heq
  have := h.opened
  rw [ha, hi, attempt] at this
  omega

/-- The attempt and its requests are as before. -/
structure Kept (s s' : PipelineState) : Prop where
  stageIndex : s'.stageIndex = s.stageIndex
  attempt : s'.attempt = s.attempt
  outstanding : s'.outstandingActions = s.outstandingActions
  reviewers : ∀ r ∈ s.approvalReviewers, r ∈ s'.approvalReviewers
  notified : s'.notifiedTimeout = s.notifiedTimeout

/-- The timeout of an attempt that has just been opened was not reported yet. -/
theorem asked_of_opened (so : s'.workflow.Sound) (h' : s'.Live) (hrec : s.Records)
    (hs : s'.workflow.stages[s'.stageIndex]? = some st)
    (hreq : s'.requestOf s'.stageIndex st s'.attempt = some action)
    (hatt : s'.attempts = s.attempts.modify s'.stageIndex (· + 1))
    (hn : s'.notifiedTimeout = s.notifiedTimeout) :
    Asked s s' [scheduleFor st s'.attempt, withReason s'.pendingWorkReason action] := by
  have hlt : s'.stageIndex < s.attempts.length := by
    have h1 := h'.ready.records.attempts
    have h2 := h'.index_lt
    rw [hatt, List.length_modify] at h1
    omega
  have hcount : s'.attempt = s.attempts.getD s'.stageIndex 0 + 1 := by
    rw [attempt, hatt, getD_modify_succ hlt]
  constructor
  · omega
  · rw [h'.outstandingActions_eq so hs hreq, if_neg]
    · rfl
    · intro hcon
      rw [hn] at hcon
      have := (hrec.notified _ hcon).2.2
      simp only [hcount] at this
      omega

theorem Entry.sent {s1 : PipelineState} {i : Nat} (he : Entry s1 i s' A)
    (so : s1.workflow.Sound) (h' : s'.Live) (hrec : s.Records) (hatt : s1.attempts = s.attempts)
    (hn : s1.notifiedTimeout = s.notifiedTimeout) : Asked s s' A := by
  cases he with
  | asked hs hm ha =>
    exact asked_of_opened (by simpa using so) h' hrec (by simpa using hs) ha (by simp [hatt])
      (by simp [hn])
  | unexpanded => cases h'.running
  | finished => cases h'.running

theorem asked_returned {s1 : PipelineState} {t : Nat} {reason role text : String}
    {output : WorkOutput} (so : s1.workflow.Sound) (h' : (s1.returned t reason).Live)
    (hrec : s.Records) (hatt : s1.attempts = s.attempts)
    (hn : s1.notifiedTimeout = s.notifiedTimeout) (hs : s1.workflow.stages[t]? = some st)
    (hst : st.stage = .work role text output) :
    Asked s (s1.returned t reason) [scheduleFor st (s1.returned t reason).attempt,
      .returnToWork st.id (s1.returned t reason).attempt role reason] := by
  have hreq : (s1.returned t reason).requestOf t st (s1.returned t reason).attempt =
      some (.assignWork st.id (s1.returned t reason).attempt role) := by rw [requestOf, hst]
  exact asked_of_opened (by simpa using so) h' hrec (by simpa using hs) hreq (by simp [hatt])
    (by simp [hn])

/-- The same requests are rebuilt when nothing they are made of changed. -/
theorem Live.kept (so : s.workflow.Sound) (h : s.Live) (h' : s'.Live)
    (hw : s'.workflow = s.workflow) (hi : s'.stageIndex = s.stageIndex)
    (ha : s'.attempts = s.attempts) (hn : s'.notifiedTimeout = s.notifiedTimeout)
    (hp : s'.pendingWorkReason = s.pendingWorkReason)
    (hrev : ∀ r ∈ s.approvalReviewers, r ∈ s'.approvalReviewers)
    (hreq : ∀ st, s.workflow.stages[s.stageIndex]? = some st →
      ∀ n, s'.requestOf s.stageIndex st n = s.requestOf s.stageIndex st n) : Kept s s' := by
  have hatt : s'.attempt = s.attempt := by
    rw [PipelineState.attempt, PipelineState.attempt, ha, hi]
  refine ⟨hi, hatt, ?_, hrev, hn⟩
  obtain ⟨st, hs⟩ := h.stage
  obtain ⟨action, hr⟩ := h.exists_request so hs s.attempt
  have hr' : s'.requestOf s'.stageIndex st s'.attempt = some action := by
    rw [hi, hatt, hreq st hs, hr]
  rw [h.outstandingActions_eq so hs hr, h'.outstandingActions_eq (hw ▸ so) (by rw [hw, hi, hs]) hr',
    hatt, hi, hn, hp]

/-- A head change restates the requests of a new attempt or leaves them alone. -/
theorem HeadMove.outstanding (so : s.workflow.Sound) (h : s.Live) {change : PendingHeadChange}
    (hm : HeadMove s change s' A) (h' : s'.Live) : Asked s s' A ∨ A = [] ∧ Kept s s' := by
  cases hm with
  | ignored => exact Or.inr ⟨rfl, rfl, rfl, rfl, fun _ hr => hr, rfl⟩
  | recorded hn hk hb =>
    refine Or.inr ⟨rfl, h.kept so h' hn.frame.workflow hn.frame.stageIndex hn.frame.attempts
      hn.frame.notifiedTimeout hn.frame.pendingWorkReason (fun r hr => ?_) fun st hs n => ?_⟩
    · obtain ⟨st, approver, count, bound, hs, hst, -⟩ :=
        h.collecting (Or.inl (List.ne_nil_of_mem hr))
      rw [Workflow.at_iff hs, Workflow.at_iff hs] at hk
      simp [WorkflowStage.isKind, hst, Stage.kind] at hk
    -- Neither work nor a submit names the head.
    rw [Workflow.at_iff hs, Workflow.at_iff hs] at hk
    rcases hk with hk | hk
    · obtain ⟨role, text, output, hst⟩ := WorkflowStage.isKind_work_iff.mp hk
      simp only [requestOf, hst]
    · obtain ⟨forge, hst⟩ := WorkflowStage.isKind_submit_iff.mp hk
      simp only [requestOf, hst]
  | rechecked hn ht hb hk hl he =>
    exact Or.inl (he.sent (hn.frame.workflow ▸ so) h' h.ready.records hn.frame.attempts
      hn.frame.notifiedTimeout)
  | returned hc hd ht hs hst =>
    left
    rcases hd with ⟨-, hn⟩ | ⟨-, rfl⟩
    · have hfr := hn.frame
      exact asked_returned (hfr.workflow ▸ so) h' h.ready.records hfr.attempts hfr.notifiedTimeout
        (by rw [hfr.workflow, hs]) hst
    · exact asked_returned so h' h.ready.records rfl rfl hs hst

/-- A failed merge sends the requests of the last attempt its head changes opened, and no
others. -/
theorem MergeBack.asked (so : s.workflow.Sound) (h : s.Live)
    (hmerge : s.workflow.At s.stageIndex (·.isKind .merge)) (hm : MergeBack s s' A)
    (h' : s'.Live) : Asked s s' A := by
  have hlater := hm.later so h
  cases hm with
  | repeated ht hb he => exact he.sent so h' h.ready.records rfl rfl
  | moved hf happ =>
    obtain ⟨s1, B, heq, -, -, -, hP⟩ := applyPending_rule
      (s := { s with pendingHeadChanges := [] })
      (P := fun s1 last => s1 = { s with pendingHeadChanges := [] } ∧ last = [] ∨
        s1.stageIndex < s.stageIndex ∧ (s1.Live → last = s1.outstandingActions)) (by
      rintro s1 s2 change last A so1 h1 hp1 hmv hlast
      have hind : s2 = s1 ∧ A = [] ∨ s2.stageIndex < s.stageIndex := by
        rcases hlast with ⟨rfl, -⟩ | ⟨hlt, -⟩
        · exact hmv.of_merge so1 h1 hmerge
        · exact Or.inr (lt_of_le_of_lt (hmv.stageIndex_le h1) hlt)
      rcases hind with ⟨rfl, rfl⟩ | hlt
      · exact hlast
      · refine Or.inr ⟨hlt, fun h2 => ?_⟩
        rcases hmv.outstanding so1 h1 h2 with ⟨-, rfl⟩ | ⟨rfl, hk⟩
        · rw [if_neg]
          simpa using h2.outstandingActions_ne_nil (hmv.workflow ▸ so1)
        · rcases hlast with ⟨rfl, -⟩ | ⟨-, hlast⟩
          · exact absurd hk.stageIndex hlt.ne
          · rw [hk.outstanding, ← hlast h1]
            rfl) so (.live h.clearPending) rfl s.pendingHeadChanges [] (Or.inl ⟨rfl, rfl⟩)
    rw [heq] at happ
    cases happ
    rcases hP with ⟨rfl, -⟩ | ⟨hlt, hsent⟩
    · obtain ⟨st, hs, hk⟩ := hmerge
      have := (mergeInFlight_iff (s := { s with pendingHeadChanges := [] }) h.running hs).mpr
        (WorkflowStage.isKind_merge_iff.mp hk)
      rw [hf] at this
      cases this
    · refine ⟨?_, hsent h'⟩
      rcases hlater.opened h'.running with ⟨hi, -⟩ | hopen
      · exact absurd hi hlt.ne
      · exact hopen

/-- Reporting a timeout takes it, and nothing else, off the requests. -/
theorem Live.reported (so : s.workflow.Sound) (h : s.Live)
    (hs : s.workflow.stages[s.stageIndex]? = some st)
    (hn : s.notifiedTimeout ≠ some (s.stageIndex, s.attempt)) :
    s.outstandingActions = scheduleFor st s.attempt :: outstandingActions
      { s with notifiedTimeout := some (s.stageIndex, s.attempt) } := by
  obtain ⟨action, hr⟩ := h.exists_request so hs s.attempt
  set t : PipelineState := { s with notifiedTimeout := some (s.stageIndex, s.attempt) }
  have ht := Live.outstandingActions_eq (s := t) so h.timedOut hs hr
  rw [if_pos (show t.notifiedTimeout = some (t.stageIndex, t.attempt) from rfl)] at ht
  rw [h.outstandingActions_eq so hs hr, if_neg hn, ht]
  rfl

end PipelineState

open PipelineState

variable {s s' : PipelineState} {e : PipelineEvent} {A : List PipelineAction}

/-- How the emitted actions and the requests to rebuild relate after a step. -/
inductive Requests (s : PipelineState) (e : PipelineEvent) (s' : PipelineState)
    (A : List PipelineAction) : Prop
  | asked (notices B : List PipelineAction) (hA : A = notices ++ B)
      (hn : ∀ a ∈ notices, a.isNotice = true) (hm : e.isMergeFailed = true → notices = [])
      (h : Asked s s' B)
  | kept (hA : A = []) (he : e.isTimeout = false) (hm : e.isMergeFailed = false) (h : Kept s s')
  | reported (st : WorkflowStage) (hA : ∀ a ∈ A, a.identity = none) (he : e.isTimeout = true)
      (hs' : s' = { s with notifiedTimeout := some (s.stageIndex, s.attempt) })
      (hs : s.currentStage = some st) (ha : st.effectiveTimeoutAction = .notify)
      (h : s.outstandingActions = scheduleFor st s.attempt :: s'.outstandingActions)

theorem Effect.requests (so : s.workflow.Sound) (h : s.Inv) (h' : s'.Live)
    (he : Effect s e s' A) : Requests s e s' A := by
  cases he with
  | begun hp he => exact .asked [] A rfl (by simp) (fun _ => rfl) (he.sent so h' h.records rfl rfl)
  | @advanced st _ s1 _ B notices hc hs hm hf hn he =>
    refine .asked notices B rfl hn (fun hcon => ?_)
      (he.sent (hf.workflow ▸ so) h' h.records hf.attempts hf.notifiedTimeout)
    rw [PipelineEvent.isMergeFailed_of_succeeds hs] at hcon
    cases hcon
  | counted hc hk hr hs hpick =>
    obtain ⟨pick, heq⟩ := hpick
    refine .kept rfl rfl rfl ((h.live_of_running hc.running).kept so h' ?_ ?_ ?_ ?_ ?_ ?_
      fun st _ n => ?_)
    · rw [heq]
    · rw [heq]
    · rw [heq]
    · rw [heq]
    · rw [heq]
    · simp only [hs, List.mem_append]
      exact fun r hr => Or.inl hr
    · rw [heq]
      rfl
  | noted hr hm he =>
    refine .kept rfl ?_ ?_ ((h.live_of_running hr).kept so h' rfl rfl rfl rfl rfl
      (fun _ hr => hr) fun _ _ _ => rfl)
    · cases e <;> first | rfl | cases he
    · cases e <;> first | rfl | cases he
  | @headMoved _ change _ _ hev hr hf hm =>
    subst hev
    rcases hm.outstanding so (h.live_of_running hr) h' with ha | ⟨rfl, hk⟩
    · exact .asked [] A rfl (by simp) (fun _ => rfl) ha
    · exact .kept rfl (by cases change <;> rfl) (by cases change <;> rfl) hk
  | failed hc hs hf hm =>
    cases hm with
    | returned hfs htarget ht hs hst =>
      exact .asked [] _ rfl (by simp) (fun _ => rfl) (asked_returned so h' h.records rfl rfl hs hst)
    | failed => cases h'.running
  | @notified st id n hc ha hn =>
    refine .reported st (fun a hm => ?_) rfl rfl hc.stage ha
      ((h.live_of_running hc.running).reported so hc.stage hn)
    rw [List.mem_singleton.mp hm]
    rfl
  | reassigned hc hf ha he =>
    exact .asked [.reassignStage _] _ rfl (by simp [PipelineAction.isNotice]) (by rintro ⟨⟩)
      (he.sent so h' h.records rfl rfl)
  | mergeFailed hc hst hm =>
    exact .asked [] A rfl (by simp) (fun _ => rfl) (hm.asked so (h.live_of_running hc.running)
      ⟨_, hc.stage, WorkflowStage.isKind_merge_iff.mpr hst⟩ h')
  | ended hw ha ht =>
    rw [h'.running] at ht
    cases ht

/-- All an accepted step emits towards a stage is what a restart would rebuild. -/
theorem mem_outstanding_of_output (hreq : Requests s e s' A) {a : PipelineAction} (ha : a ∈ A)
    (hid : a.identity ≠ none) : a ∈ s'.outstandingActions := by
  cases hreq with
  | asked notices B hA hn hm hask =>
    rw [hA] at ha
    rcases List.mem_append.mp ha with ha | ha
    · exact absurd (PipelineAction.identity_of_isNotice (hn a ha)) hid
    · exact hask.sent ▸ ha
  | kept hA =>
    rw [hA] at ha
    cases ha
  | reported st hA => exact absurd (hA a ha) hid

/-- Only a task that runs on asks, and a restart would ask the same. -/
theorem live_of_request {taskId : String} {w : ValidatedWorkflow} (hi : Invariant taskId w s)
    (hs : step s e = .ok (s', A)) {a : PipelineAction} (ha : a ∈ A) (hid : a.identity ≠ none) :
    s'.Live ∧ a ∈ s'.outstandingActions := by
  have he := (step_eq_ok_iff.mp hs).effect hi.sound hi.inv
  have hr : s'.status = .running := by
    by_contra hne
    exact hid (he.silent hi.sound hi.inv hne a ha)
  have hlive := (hi.step hs).inv.live_of_running hr
  exact ⟨hlive, mem_outstanding_of_output (he.requests hi.sound hi.inv hlive) ha hid⟩

/-- What a live task asks for comes from its stage, with the reason of a rework. -/
theorem PipelineState.Live.exists_requestOf (so : s.workflow.Sound) (h : s.Live)
    {a : PipelineAction} (ha : a ∈ s.outstandingActions) :
    ∃ st action, s.workflow.stages[s.stageIndex]? = some st ∧
      s.requestOf s.stageIndex st s.attempt = some action ∧
      (a = scheduleFor st s.attempt ∨ a = withReason s.pendingWorkReason action) := by
  obtain ⟨st, hst⟩ := h.stage
  obtain ⟨action, hreq⟩ := h.exists_request so hst s.attempt
  refine ⟨st, action, hst, hreq, ?_⟩
  rw [h.outstandingActions_eq so hst hreq] at ha
  rcases List.mem_append.mp ha with ha | ha
  · split_ifs at ha
    · cases ha
    · exact Or.inl (List.mem_singleton.mp ha)
  · exact Or.inr (List.mem_singleton.mp ha)

/-- What a live task asks for names its stage, its attempt and, where it needs one, its head. -/
theorem PipelineState.Live.outstanding_spec (so : s.workflow.Sound) (h : s.Live) :
    ∃ st, s.currentStage = some st ∧ ∀ a ∈ s.outstandingActions,
      a.isNotice = false ∧ a.identity = some (st.id, s.attempt) ∧
      (st.needsHead = true → isScheduleTimeout a = false → a.head = some s.currentHead) := by
  obtain ⟨st, hs⟩ := h.stage
  obtain ⟨action, hr⟩ := h.exists_request so hs s.attempt
  refine ⟨st, hs, fun a ha => ?_⟩
  rw [h.outstandingActions_eq so hs hr] at ha
  rcases List.mem_append.mp ha with ha | ha
  · split_ifs at ha
    · cases ha
    · rw [List.mem_singleton.mp ha]
      exact ⟨rfl, rfl, fun _ hcon => by cases hcon⟩
  · rw [List.mem_singleton.mp ha]
    obtain ⟨h1, h2, -, h4⟩ := withReason_spec s.pendingWorkReason action
    rw [h1, h2, h4]
    exact ⟨(requestOf_isRequest hr).2, identity_of_requestOf hr,
      fun hn _ => head_of_requestOf hr hn⟩

/-- A step sends exactly the requests a restart would rebuild; a step that opens no attempt sends
none and leaves them as they were, but for a timeout it reports. -/
theorem outstanding_requests {taskId : String} {w : ValidatedWorkflow}
    (h : (pipeline taskId w).Reachable s) (hs : step s e = .ok (s', A))
    (hr : s'.status = .running) :
    ((s'.stageIndex, s'.attempt) ≠ (s.stageIndex, s.attempt) →
      (A.filter fun a => !a.isNotice) = s'.outstandingActions ∧
      ∃ st, s'.currentStage = some st ∧ ∀ a ∈ s'.outstandingActions,
        a.identity = some (st.id, s'.attempt) ∧
        (st.needsHead = true → isScheduleTimeout a = false → a.head = some s'.currentHead)) ∧
    ((s'.stageIndex, s'.attempt) = (s.stageIndex, s.attempt) →
      (∀ a ∈ A, a.identity = none) ∧
      (e.isTimeout = false → s'.outstandingActions = s.outstandingActions) ∧
      (e.isTimeout = true → ∃ st, s.currentStage = some st ∧
        s.outstandingActions = scheduleFor st s.attempt :: s'.outstandingActions)) ∧
    (e.isMergeFailed = true → (s'.stageIndex, s'.attempt) ≠ (s.stageIndex, s.attempt) ∧
      A = s'.outstandingActions) := by
  have hi := invariant_of_reachable h
  have hi' := hi.step hs
  have hl' := hi'.inv.live_of_running hr
  obtain ⟨st, hst, hspec⟩ := hl'.outstanding_spec hi'.sound
  have hreq := ((step_eq_ok_iff.mp hs).effect hi.sound hi.inv).requests hi.sound hi.inv hl'
  cases hreq with
  | asked notices B hA hn hm ha =>
    have hnew := ha.ne
    obtain ⟨-, rfl⟩ := ha
    refine ⟨fun _ => ⟨?_, st, hst, fun a hmem => (hspec a hmem).2⟩, fun hcon => absurd hcon hnew,
      fun hf => ⟨hnew, by rw [hA, hm hf, List.nil_append]⟩⟩
    rw [hA, List.filter_append, List.filter_eq_nil_iff.mpr (by simpa using hn),
      List.filter_eq_self.mpr (by simpa using fun a hmem => (hspec a hmem).1), List.nil_append]
  | kept hA he hm hk =>
    subst hA
    refine ⟨fun hcon => absurd (Prod.ext hk.stageIndex hk.attempt) hcon, fun _ => ⟨by simp,
      fun _ => hk.outstanding, fun hcon => ?_⟩, fun hcon => ?_⟩
    · rw [he] at hcon
      cases hcon
    · rw [hm] at hcon
      cases hcon
  | reported st' hA he hs' hcur ha hrep =>
    subst hs'
    refine ⟨fun hcon => absurd rfl hcon, fun _ => ⟨hA, fun hcon => ?_,
      fun _ => ⟨st', hcur, hrep⟩⟩, fun hcon => ?_⟩
    · rw [he] at hcon
      cases hcon
    · rw [PipelineEvent.isMergeFailed_of_isTimeout he] at hcon
      cases hcon

/-- A merge that fails with a commit pending asks for the checks of that commit. -/
theorem outstanding_requests_builtin :
    let s := scripted .builtinCode [.start, .workCompleted "work" 1 (.branch "b" "h" "p"),
      .submitted "submit" 1 none, .commandFinished "checks" 1 (some "h") (some 0),
      .approvalGranted "review" 1 "ann" (some "h") none, .commitCreated "h'" "p'"]
    ∃ s' A, step s (.mergeFailed "merge" 1 "h" "conflict") = .ok (s', A) ∧
      s'.currentHead = some "h'" ∧ A = s'.outstandingActions := by
  intro s
  obtain ⟨⟨s', A⟩, hstep⟩ := exists_of_isOk
    (by decide +kernel : (step s (.mergeFailed "merge" 1 "h" "conflict")).isOk = true)
  have hr : (step s (.mergeFailed "merge" 1 "h" "conflict")).toOption.all
      (fun r => r.1.status = .running ∧ r.1.currentHead = some "h'") = true := by decide +kernel
  rw [hstep] at hr
  obtain ⟨hrun, hhead⟩ : s'.status = .running ∧ s'.currentHead = some "h'" := by
    simpa [Except.toOption] using hr
  exact ⟨s', A, hstep, hhead,
    ((outstanding_requests (reachable_scripted _ _) hstep hrun).2.2 rfl).2⟩

end Agend.Pipeline
