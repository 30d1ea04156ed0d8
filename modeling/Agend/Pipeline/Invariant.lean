import Agend.Library.Trace
import Agend.Pipeline.Complete

/-! The invariant holds in every reachable state of a validated workflow. -/
namespace Agend.Pipeline

namespace PipelineState

variable {s : PipelineState}

theorem Inv.live_of_running (h : s.Inv) (hr : s.status = .running) : s.Live := by
  cases h with
  | pending h =>
    rw [h] at hr
    cases hr
  | live h => exact h
  | finished h =>
    rw [h.done] at hr
    cases hr
  | stopped h => rcases h.status with hs | hs <;> rw [hs] at hr <;> cases hr

theorem Inv.finished_of_done (h : s.Inv) (hd : s.status = .done) : s.Finished := by
  cases h with
  | pending h =>
    rw [h] at hd
    cases hd
  | live h =>
    rw [h.running] at hd
    cases hd
  | finished h => exact h
  | stopped h => rcases h.status with hs | hs <;> rw [hs] at hd <;> cases hd

theorem Inv.unchecked_of_pending (h : s.Inv) (hp : s.status = .pending) :
    s = .unchecked s.taskId s.workflow := by
  cases h with
  | pending h => exact h
  | live h =>
    rw [h.running] at hp
    cases hp
  | finished h =>
    rw [h.done] at hp
    cases hp
  | stopped h => rcases h.status with hs | hs <;> rw [hs] at hp <;> cases hp

namespace HeadMove

variable {change : PendingHeadChange} {s' : PipelineState} {A : List PipelineAction}

theorem workflow (hm : HeadMove s change s' A) : s'.workflow = s.workflow := by
  cases hm with
  | ignored => rfl
  | recorded hn => exact hn.frame.workflow
  | rechecked hn _ _ _ _ he => exact he.workflow.trans hn.frame.workflow
  | returned _ hd =>
    rw [returned_workflow]
    rcases hd with ⟨-, hn⟩ | ⟨-, rfl⟩
    · exact hn.frame.workflow
    · rfl

/-- A head change never advances the task. -/
theorem stageIndex_le (h : s.Live) (hm : HeadMove s change s' A) : s'.stageIndex ≤ s.stageIndex := by
  cases hm with
  | ignored => exact le_rfl
  | recorded hn => exact hn.frame.stageIndex.le
  | rechecked hn ht _ _ hl he =>
    have := h.index_lt
    rw [he.stageIndex (by rw [hn.frame.workflow]; omega)]
    exact hl
  | returned _ _ ht => exact ht.le

/-- A head change that does something moves a task away from its merge stage. -/
theorem of_merge (so : s.workflow.Sound) (h : s.Live) (hm : HeadMove s change s' A)
    (hmerge : s.workflow.At s.stageIndex (·.isKind .merge)) :
    s' = s ∧ A = [] ∨ s'.stageIndex < s.stageIndex := by
  have kind : ∀ {k : StageKind}, s.workflow.At s.stageIndex (·.isKind k) → k = .merge := by
    rintro k ⟨st, hs, hk⟩
    exact WorkflowStage.isKind_unique hk ((Workflow.at_iff hs).mp hmerge)
  cases hm with
  | ignored => exact Or.inl ⟨rfl, rfl⟩
  | recorded hn hk => rcases hk with hk | hk <;> cases kind hk
  | @rechecked s1 _ t _ hn ht hb hk hl he =>
    right
    have hlen := h.index_lt
    have hw := hn.frame.workflow
    rw [he.stageIndex (by rw [hw]; omega)]
    refine lt_of_le_of_ne hl fun heq => ?_
    -- A command lies between the target and the merge, and entry does not skip commands.
    obtain ⟨j, hj, sj, hsj, hc⟩ := so.mergeCommand _ hmerge
    have hbt : s.workflow.At t (·.isHeadBound) := by
      rcases hk with hbt | ⟨rfl, hk | hk⟩
      · exact hbt
      · cases kind hk
      · cases kind hk
    have htj : t ≤ j := by
      by_contra hcon
      exact hb j (by omega) ⟨sj, hsj, WorkflowStage.isHeadBound_iff.mpr (Or.inl hc)⟩
    have hr := hn.ready so (h.ready.recheck so ht ⟨hbt, hb⟩) hb
    have := (hr.skipped (hw ▸ so) htj (by omega) (by rw [hw, hsj])).1
    cases WorkflowStage.isKind_unique hc this
  | returned _ _ ht => exact Or.inr ht

end HeadMove

/-- The fold over pending head changes: what every move keeps, the whole fold keeps. -/
theorem applyPending_rule {P : PipelineState → List PipelineAction → Prop}
    (move : ∀ (s s' : PipelineState) (change : PendingHeadChange) (last A : List PipelineAction),
      s.workflow.Sound → s.Live → s.pendingHeadChanges = [] → HeadMove s change s' A → P s last →
      P s' (if A.isEmpty then last else A)) (so : s.workflow.Sound) (h : s.Inv)
    (hp : s.pendingHeadChanges = []) (changes : List PendingHeadChange)
    (last : List PipelineAction) (hP : P s last) :
    ∃ s' A, applyPending changes last s = .ok (s', A) ∧ s'.Inv ∧ s'.pendingHeadChanges = [] ∧
      s'.workflow = s.workflow ∧ P s' A := by
  induction changes generalizing s last with
  | nil => exact ⟨s, last, rfl, h, hp, rfl, hP⟩
  | cons change rest ih =>
    by_cases hr : s.status = .running
    · have hl := h.live_of_running hr
      obtain ⟨s1, A, happ, hm⟩ := hl.applyHeadChange so change
      obtain ⟨hinv, hp1⟩ := hm.inv so hl hp
      obtain ⟨s', B, heq, hrest⟩ := ih (hm.workflow ▸ so) hinv hp1
        _ (move s s1 change last A so hl hp hm hP)
      rw [hm.workflow] at hrest
      exact ⟨s', B, by simp only [applyPending, happ]; exact heq, hrest⟩
    · obtain ⟨s', B, heq, hrest⟩ := ih so h hp _ hP
      refine ⟨s', B, ?_, hrest⟩
      simp only [applyPending, PipelineState.applyHeadChange, hr, ne_eq, not_false_eq_true, if_true,
        List.isEmpty_nil]
      exact heq

/-- What a merge that the forge refused leaves: the pending head changes move the task back, or
nothing did and the checks run again on the same head. -/
inductive MergeBack (s : PipelineState) : PipelineState → List PipelineAction → Prop
  | moved {s' : PipelineState} {A : List PipelineAction} (hf : s'.mergeInFlight = false)
      (h : applyPending s.pendingHeadChanges [] { s with pendingHeadChanges := [] } = .ok (s', A)) :
      MergeBack s s' A
  | repeated {s' : PipelineState} {A : List PipelineAction} {t : Nat} (ht : t ≤ s.stageIndex)
      (hb : FirstBound s.workflow t) (h : Entry { s with pendingHeadChanges := [] } t s' A)
      (hn : applyPending s.pendingHeadChanges [] { s with pendingHeadChanges := [] } =
        .ok ({ s with pendingHeadChanges := [] }, [])) : MergeBack s s' A

theorem Live.clearPending (h : s.Live) : Live { s with pendingHeadChanges := [] } :=
  { h with
    ready := { h.ready with records := { h.ready.records with } }
    pending := fun hne => absurd rfl hne }

theorem Live.mergeFailed (so : s.workflow.Sound) (h : s.Live)
    (hm : s.workflow.At s.stageIndex (·.isKind .merge)) :
    ∃ s' A, s.mergeFailed = .ok (s', A) ∧ s'.Inv ∧ s'.pendingHeadChanges = [] ∧
      MergeBack s s' A := by
  set s0 : PipelineState := { s with pendingHeadChanges := [] } with hs0
  have h0 : s0.Live := h.clearPending
  have so0 : s0.workflow.Sound := so
  have hlen := h0.index_lt
  obtain ⟨s1, A, happ, hinv, hp, hw, hP⟩ := applyPending_rule (s := s0)
    (P := fun s1 last => s1 = s0 ∧ last = [] ∨
      s1.workflow = s.workflow ∧ ¬ s.workflow.At s1.stageIndex (·.isKind .merge)) (by
    rintro s1 s2 change last A so1 h1 - hmv (⟨rfl, rfl⟩ | ⟨hw, hno⟩)
    · rcases hmv.of_merge so1 h1 hm with ⟨rfl, rfl⟩ | hlt
      · exact Or.inl ⟨rfl, rfl⟩
      · refine Or.inr ⟨hmv.workflow, fun hcon => ?_⟩
        have := so.mergeLast _ hcon
        have hlt' : s2.stageIndex < s.stageIndex := hlt
        have := h.index_lt
        omega
    · refine Or.inr ⟨hmv.workflow.trans hw, fun hcon => hno ?_⟩
      have h2 := so.mergeLast _ hcon
      have h3 := hmv.stageIndex_le h1
      have h4 := h1.index_lt
      rw [hw] at h4
      obtain heq : s2.stageIndex = s1.stageIndex := by omega
      exact heq ▸ hcon) so (.live h0) rfl s.pendingHeadChanges [] (Or.inl ⟨rfl, rfl⟩)
  unfold PipelineState.mergeFailed
  simp only [← hs0, happ]
  rcases hP with ⟨rfl, rfl⟩ | ⟨-, hno⟩
  · obtain ⟨st, hs, hk⟩ := hm
    have hflight : s0.mergeInFlight = true :=
      (mergeInFlight_iff h.running hs).mpr (WorkflowStage.isKind_merge_iff.mp hk)
    obtain ⟨j, hj, sj, hsj, hc⟩ := so.mergeCommand _ ⟨st, hs, hk⟩
    cases ht : s0.recheckTarget s0.stageIndex with
    | none =>
      rw [recheckTarget_eq_none_iff so0.toShape hlen] at ht
      exact absurd ⟨sj, hsj, WorkflowStage.isHeadBound_iff.mpr (Or.inl hc)⟩ (ht j hj.le)
    | some t =>
      obtain ⟨hle, hfirst⟩ := (recheckTarget_eq_some_iff so0.toShape hlen).mp ht
      have hr := h0.ready.recheck so0 hle hfirst
      obtain ⟨s', B, he⟩ := hr.exists_enter so0
      have hE := enterStage_eq_ok_iff.mp he
      have hlt : t < s.workflow.stages.length := lt_of_le_of_lt hle hlen
      rw [if_pos hflight]
      refine ⟨s', B, by simp only [he]; rfl, hr.inv_of_entry so0 h.running rfl hlt.le
        (fun heq => absurd heq hlt.ne) hE, hE.pendingHeadChanges, .repeated hle hfirst hE happ⟩
  · have hflight : s1.mergeInFlight = false := by
      rw [Bool.eq_false_iff]
      intro hf
      obtain ⟨-, st, hs, hk⟩ := exists_stage_of_mergeInFlight hf
      rw [show s1.workflow = s.workflow from hw] at hs
      exact hno ⟨st, hs, WorkflowStage.isKind_merge_iff.mpr hk⟩
    rw [if_neg (by simp [hflight])]
    exact ⟨s1, A, rfl, hinv, hp, .moved hflight happ⟩

/-- The next stage is entered once the current one, not a merge, is settled. -/
theorem Live.inv_next (so : s.workflow.Sound) (h : s.Live)
    (hm : ¬ s.workflow.At s.stageIndex (·.isKind .merge)) {s1 s' : PipelineState}
    {A : List PipelineAction} (hready : s1.Ready (s.stageIndex + 1))
    (he : s1.enterStage (s.stageIndex + 1) = .ok (s', A)) (hw : s1.workflow = s.workflow)
    (hst : s1.status = s.status) (hp : s1.pendingHeadChanges = s.pendingHeadChanges)
    (hr : s1.pendingWorkReason = s.pendingWorkReason) : s'.Inv := by
  have hlt := h.index_lt
  refine hready.inv_of_entry (hw ▸ so) (hst.trans h.running) ?_ (by rw [hw]; omega) ?_
    (enterStage_eq_ok_iff.mp he)
  · rw [hp]
    by_contra hne
    exact hm (h.pending hne)
  · rw [hw, hr]
    refine fun heq => ⟨?_, fun ⟨j, hj⟩ => ?_⟩
    · by_contra hne
      have := (h.reason hne).2
      omega
    · have := so.mergeLast j hj
      obtain rfl : j = s.stageIndex := by omega
      exact hm hj

/-- The target of a failure is an earlier work stage; checks and approvals always have one. -/
theorem failureTarget_spec (so : s.workflow.Sound) {i : Nat} {st : WorkflowStage}
    (hs : s.workflow.stages[i]? = some st) :
    (∀ t, s.failureTarget i st = some t → t < i ∧ s.workflow.At t (·.isKind .work)) ∧
      (st.isKind .command = true ∨ st.isKind .approval = true → s.failureTarget i st ≠ none) := by
  have hi : i < s.workflow.stages.length := (List.getElem?_eq_some_iff.mp hs).1
  have explicit : ∀ target t, (s.workflow.stages.take i).findIdx?
      (fun x => x.id = target && x.isKind .work) = some t →
      t < i ∧ s.workflow.At t (·.isKind .work) := by
    intro target t ht
    obtain ⟨hlt, hp, -⟩ := List.findIdx?_eq_some_iff_getElem.mp ht
    simp only [List.length_take] at hlt
    simp only [List.getElem_take, Bool.and_eq_true] at hp
    exact ⟨by omega, _, List.getElem?_eq_getElem (by omega), hp.2⟩
  constructor
  · intro t ht
    unfold failureTarget at ht
    simp only [Option.or_eq_some_iff, Option.bind_eq_some_iff] at ht
    rcases ht with ⟨target, -, ht⟩ | ⟨-, ht⟩
    · exact explicit target t ht
    · split_ifs at ht
      obtain ⟨hlt, hw, -⟩ := (previousWork_eq_some_iff hi.le).mp ht
      exact ⟨hlt, hw⟩
  · intro hk hn
    unfold failureTarget at hn
    simp only [Option.or_eq_none_iff] at hn
    rw [if_pos (by simpa using hk)] at hn
    obtain ⟨t, ht⟩ := exists_previousWork hi.le (so.earlierWork i
      (hk.imp (fun hk => ⟨st, hs, hk⟩) fun hk => ⟨st, hs, hk⟩))
    rw [hn.2] at ht
    cases ht

/-- What a failed stage leads to. -/
inductive FailMove (s : PipelineState) (reason : String) :
    PipelineState → List PipelineAction → Prop
  | returned {t : Nat} {failed st : WorkflowStage} {role text : String} {output : WorkOutput}
      (hf : s.workflow.stages[s.stageIndex]? = some failed)
      (htarget : s.failureTarget s.stageIndex failed = some t) (ht : t < s.stageIndex)
      (hs : s.workflow.stages[t]? = some st) (hst : st.stage = .work role text output) :
      FailMove s reason (s.returned t reason)
        [scheduleFor st (s.returned t reason).attempt,
          .returnToWork st.id (s.returned t reason).attempt role reason]
  | failed {st : WorkflowStage} (hs : s.workflow.stages[s.stageIndex]? = some st)
      (hk : st.isKind .command = false ∧ st.isKind .approval = false) :
      FailMove s reason (s.failTask st.id reason).1 (s.failTask st.id reason).2

theorem Live.failStage (so : s.workflow.Sound) (h : s.Live) (reason : String) :
    ∃ s' A, s.failStage s.stageIndex reason = .ok (s', A) ∧ FailMove s reason s' A := by
  obtain ⟨st, hs⟩ := h.stage
  obtain ⟨hsome, hnone⟩ := failureTarget_spec so hs
  simp only [PipelineState.failStage, hs]
  cases ht : s.failureTarget s.stageIndex st with
  | some t =>
    obtain ⟨hlt, sw, hsw, hk⟩ := hsome t ht
    obtain ⟨role, text, output, hst⟩ := WorkflowStage.isKind_work_iff.mp hk
    exact ⟨_, _, returnToWork_eq hsw hst, .returned hs ht hlt hsw hst⟩
  | none =>
    refine ⟨_, _, rfl, .failed hs ?_⟩
    rw [Bool.eq_false_iff, Bool.eq_false_iff]
    exact ⟨fun hk => hnone (Or.inl hk) ht, fun hk => hnone (Or.inr hk) ht⟩

theorem FailMove.inv (so : s.workflow.Sound) (h : s.Live) (hp : s.pendingHeadChanges = [])
    {reason : String} {s' : PipelineState} {A : List PipelineAction}
    (hm : FailMove s reason s' A) : s'.Inv := by
  have hlt := h.index_lt
  cases hm with
  | returned hf htarget ht hs hst =>
    exact .live (h.ready.live_returned so ht (by omega)
      ⟨_, hs, WorkflowStage.isKind_work_iff.mpr ⟨_, _, _, hst⟩⟩ h.running hp)
  | failed =>
    exact .stopped ⟨Or.inl rfl, { h.ready.records with reviewers := List.nodup_nil }, hlt, hp,
      fun hne => (h.reason hne).1⟩

theorem Live.stopped_cancelTask (h : s.Live) (hp : s.pendingHeadChanges = [])
    (stageId : Option String) (reason : String) : (s.cancelTask stageId reason).1.Stopped :=
  ⟨Or.inr rfl, { h.ready.records with reviewers := List.nodup_nil }, h.index_lt, hp,
    fun hne => (h.reason hne).1⟩

end PipelineState

open PipelineState

variable {s s' : PipelineState} {e : PipelineEvent} {A : List PipelineAction}

theorem hasDuplicate_eq_false_iff {l : List String} :
    hasDuplicate l = false ↔ l.Nodup := by
  induction l with
  | nil => simp [hasDuplicate]
  | cons x rest ih => simp [hasDuplicate, ih]

theorem childrenOk_spec {children : List String} (h : childrenOk children = true) :
    children ≠ [] ∧ children.Nodup := by
  simp only [childrenOk, Bool.not_eq_true', Bool.or_eq_false_iff, List.isEmpty_eq_false_iff] at h
  exact ⟨h.1.1, hasDuplicate_eq_false_iff.mp h.2⟩

theorem Current.not_merge {st : WorkflowStage} {id : String} {n : Nat} (hc : Current s st id n)
    (hm : st.stage ≠ .merge) : ¬ s.workflow.At s.stageIndex (·.isKind .merge) := by
  rw [Workflow.at_iff hc.stage, WorkflowStage.isKind_merge_iff]
  exact hm

theorem PipelineState.Live.pending_eq_nil (h : s.Live) (hf : s.mergeInFlight = false) :
    s.pendingHeadChanges = [] := by
  by_contra hne
  obtain ⟨st, hs, hk⟩ := h.pending hne
  rw [(mergeInFlight_iff h.running hs).mpr (WorkflowStage.isKind_merge_iff.mp hk)] at hf
  cases hf

theorem ready_start (taskId : String) (w : Workflow) :
    Ready { PipelineState.unchecked taskId w with status := .running } 0 where
  records :=
    { attempts := by simp [unchecked]
      patch := rfl
      head := by rintro ⟨⟩
      checks := by rintro c ⟨⟩
      checksNodup := List.nodup_nil
      approvals := by rintro a ⟨⟩
      approvalsNodup := List.nodup_nil
      reviewers := List.nodup_nil
      selected := by rintro c ⟨⟩
      children := List.nodup_nil
      notified := by rintro t ⟨⟩ }
  passed := by rintro j st ⟨⟩
  approved := by rintro j st ⟨⟩
  ahead := fun _ => ⟨rfl, by rintro a ⟨⟩⟩
  branched := by rintro ⟨j, ⟨⟩, -⟩
  sourced := by rintro ⟨⟩
  offered := by rintro f - ⟨⟩
  picked := by rintro f st - - ⟨⟩

theorem PipelineState.Inv.records (h : s.Inv) : s.Records := by
  cases h with
  | pending h =>
    rw [h]
    exact { (ready_start s.taskId s.workflow).records with }
  | live h => exact h.ready.records
  | finished h => exact h.ready.records
  | stopped h => exact h.records

namespace PipelineState.Live

theorem failMove (so : s.workflow.Sound) (h : s.Live) {reason : String}
    (he : s.failStage s.stageIndex reason = .ok (s', A)) : FailMove s reason s' A := by
  obtain ⟨s1, B, heq, hm⟩ := h.failStage so reason
  rw [heq] at he
  cases he
  exact hm

theorem headMove (so : s.workflow.Sound) (h : s.Live) {change : PendingHeadChange}
    (he : s.applyHeadChange change = .ok (s', A)) : HeadMove s change s' A := by
  obtain ⟨s1, B, heq, hm⟩ := h.applyHeadChange so change
  rw [heq] at he
  cases he
  exact hm

theorem mergeBack (so : s.workflow.Sound) (h : s.Live)
    (hm : s.workflow.At s.stageIndex (·.isKind .merge)) (he : s.mergeFailed = .ok (s', A)) :
    s'.Inv ∧ s'.pendingHeadChanges = [] ∧ MergeBack s s' A := by
  obtain ⟨s1, B, heq, hinv, hp, hb⟩ := h.mergeFailed so hm
  rw [heq] at he
  cases he
  exact ⟨hinv, hp, hb⟩

/-- One more reviewer, not yet enough. -/
theorem counted (h : s.Live) {st : WorkflowStage} {approver : Approver} {count : Nat}
    {bound : Bool} (hs : s.workflow.stages[s.stageIndex]? = some st)
    (hst : st.stage = .approval approver count bound) {reviewer : String} {child : Option String}
    {next : PipelineState} (hr : reviewer ∉ s.approvalReviewers) (hp : s.choosePick child = .ok next)
    (hlt : s.approvalReviewers.length + 1 < count) :
    Live { next with approvalReviewers := s.approvalReviewers ++ [reviewer] } := by
  have hnd : (s.approvalReviewers ++ [reviewer]).Nodup := by
    simpa [List.nodup_append] using ⟨h.ready.records.reviewers, fun a ha he => hr (he ▸ ha)⟩
  have hcol : (s.approvalReviewers ++ [reviewer]).length < count := by simpa using hlt
  rcases choosePick_eq hp with ⟨rfl, -⟩ | ⟨winner, hw, rfl, -, -, hpick⟩
  · exact { h with
      ready := { h.ready with records := { h.ready.records with reviewers := hnd } }
      collecting := fun _ => ⟨st, _, _, _, hs, hst, hcol⟩ }
  · exact { h with
      ready := { h.ready with records := { h.ready.records with reviewers := hnd } }
      collecting := fun _ => ⟨st, _, _, _, hs, hst, hcol⟩
      pick := by
        rintro c hc
        obtain rfl := Option.some.inj hc
        exact ⟨hw, hpick⟩ }

theorem deferred (h : s.Live) (hf : s.mergeInFlight = true) (changes : List PendingHeadChange) :
    Live { s with pendingHeadChanges := changes } :=
  { h with
    ready := { h.ready with records := { h.ready.records with } }
    pending := fun _ => by
      obtain ⟨-, st, hs, hk⟩ := exists_stage_of_mergeInFlight hf
      exact ⟨st, hs, WorkflowStage.isKind_merge_iff.mpr hk⟩ }

theorem timedOut (h : s.Live) : Live { s with notifiedTimeout := some (s.stageIndex, s.attempt) } :=
  { h with
    ready := { h.ready with records := { h.ready.records with
      notified := by
        rintro t ht
        obtain rfl := Option.some.inj ht
        exact ⟨h.index_lt, h.attempt, le_rfl⟩ } } }

/-- A merge done for the current head finishes the task. -/
theorem finished_merge (so : s.workflow.Sound) (h : s.Live)
    (hm : s.workflow.At s.stageIndex (·.isKind .merge)) (commit : String) :
    Finished { s with mergeCommit := some commit, pendingHeadChanges := [], status := .done } := by
  have hlast := so.mergeLast _ hm
  obtain ⟨sm, hsm, hkm⟩ := hm
  have kind : ∀ {k : StageKind}, k ≠ .merge → sm.isKind k = false := by
    intro k hne
    rw [Bool.eq_false_iff]
    exact fun hk => hne (WorkflowStage.isKind_unique hk hkm)
  have hready : s.Ready (s.stageIndex + 1) := by
    refine h.ready.completed so hsm rfl h.ready.records (fun id => ?_) (fun id => ?_) ?_ ?_
      (fun _ _ hne => hne) fun f sf hf hlastf hlt => h.ready.picked f sf hf hlastf ?_
    · simp [kind]
    · simp [kind]
    · simp only [iff_self_or]
      intro hb
      have := WorkflowStage.isKind_work_of_isBranchWork hb
      rw [kind (by simp)] at this
      cases this
    · simp [kind]
    · refine lt_of_le_of_ne (by omega) ?_
      rintro rfl
      rw [Workflow.at_iff hsm] at hf
      have := WorkflowStage.isKind_fanout_of_isPickFanout hf
      rw [kind (by simp)] at this
      cases this
  rw [hlast] at hready
  refine ⟨rfl, { hready with records := { hready.records with } }, h.index_lt.le, rfl, ?_,
    fun _ => rfl⟩
  by_contra hne
  have := (h.reason hne).1
  rw [Workflow.at_iff hsm, kind (by simp)] at this
  cases this

end PipelineState.Live

/-- Every accepted event keeps the invariant. -/
theorem Accepted.inv (so : s.workflow.Sound) (h : s.Inv) (ha : Accepted s e s' A) : s'.Inv := by
  cases ha with
  | start hp hne he =>
    have hs := h.unchecked_of_pending hp
    rw [hs] at he
    exact (ready_start s.taskId s.workflow).inv_of_entry so rfl rfl (Nat.zero_le _)
      (fun heq => absurd (List.length_eq_zero_iff.mp heq.symm) hne) (enterStage_eq_ok_iff.mp he)
  | workCompleted hc hst hm he =>
    have hl := h.live_of_running hc.running
    exact hl.inv_next so (hc.not_merge (by simp [hst]))
      (hl.ready_takeProduct so hc.stage hst hm) he frame_takeProduct.workflow
      frame_takeProduct.status frame_takeProduct.pendingHeadChanges
      frame_takeProduct.pendingWorkReason
  | submitted hc hst he =>
    have hl := h.live_of_running hc.running
    exact hl.inv_next so (hc.not_merge (by simp [hst]))
      (hl.ready_submitted so hc.stage hst _) he rfl rfl rfl rfl
  | commandPassed hc hst he =>
    have hl := h.live_of_running hc.running
    have hid := hc.id
    subst hid
    exact hl.inv_next so (hc.not_merge (by simp [hst])) (hl.ready_recordPass so hc.stage hst) he
      frame_recordPass.workflow frame_recordPass.status frame_recordPass.pendingHeadChanges
      frame_recordPass.pendingWorkReason
  | commandFailed hc hst hx he =>
    have hl := h.live_of_running hc.running
    have hp := hl.pending_eq_nil (not_inFlight_of_current hc (by simp [hst]))
    exact (hl.failMove so he).inv so hl hp
  | approvalCounted hc hst hb hr hp hlt =>
    exact .live ((h.live_of_running hc.running).counted hc.stage hst hr hp hlt)
  | @approvalMet _ _ _ _ _ _ reviewer _ _ next _ _ hc hst hb hr hp hge he =>
    have hl := h.live_of_running hc.running
    have hid := hc.id
    subst hid
    have hfr := frame_choosePick hp
    have hi : next.stageIndex + 1 = s.stageIndex + 1 := congrArg (· + 1) hfr.stageIndex
    have hm := hc.not_merge (by simp [hst])
    rcases completeApproval_eq_ok he with ⟨hno, he⟩ | ⟨winner, B, hpick, -, he, -⟩
    · simp only [hfr.stageIndex, hfr.workflow] at hno
      rw [hi] at he
      exact hl.inv_next so hm (hl.ready_approvalMet so hc.stage hst hb hr hp hge hno) he
        hfr.workflow hfr.status hfr.pendingHeadChanges hfr.pendingWorkReason
    · simp only [hfr.stageIndex, hfr.workflow] at hpick
      rw [hi] at he
      exact hl.inv_next so hm (hl.ready_picked so hc.stage hst hb hr hp hge hpick winner) he
        hfr.workflow hfr.status hfr.pendingHeadChanges hfr.pendingWorkReason
  | changesRequested hc hst hb he =>
    have hl := h.live_of_running hc.running
    have hp := hl.pending_eq_nil (not_inFlight_of_current hc (by simp [hst]))
    exact (hl.failMove so he).inv so hl hp
  | commitKnown _ hr hs hw hh =>
    have hl := h.live_of_running hr
    split_ifs
    · exact .live hl.clearPending
    · exact .live hl
  | commitDeferred hf hw hh =>
    exact .live ((h.live_of_running (exists_stage_of_mergeInFlight hf).1).deferred hf _)
  | commitCreated hr hs hf hw hh he =>
    have hl := h.live_of_running hr
    exact ((hl.headMove so he).inv so hl (hl.pending_eq_nil hf)).1
  | advanceDeferred hf hw =>
    exact .live ((h.live_of_running (exists_stage_of_mergeInFlight hf).1).deferred hf _)
  | mainAdvanced hr hs hf hw he =>
    have hl := h.live_of_running hr
    exact ((hl.headMove so he).inv so hl (hl.pending_eq_nil hf)).1
  | fanoutCompleted hc hst hj hch he =>
    have hl := h.live_of_running hc.running
    obtain ⟨hne, hnd⟩ := childrenOk_spec hch
    exact hl.inv_next so (hc.not_merge (by simp [hst]))
      (hl.ready_children so hc.stage hst hne hnd (by simp)) he rfl rfl rfl rfl
  | fanoutFirst hc hst hch hw he =>
    have hl := h.live_of_running hc.running
    obtain ⟨B, he, -⟩ := after_eq_ok_iff.mp he
    exact hl.inv_next so (hc.not_merge (by simp [hst]))
      (hl.ready_children so hc.stage hst (List.cons_ne_nil _ _) (List.nodup_singleton _) (by simp))
      he rfl rfl rfl rfl
  | stageFailed hc hf he =>
    have hl := h.live_of_running hc.running
    exact (hl.failMove so he).inv so hl (hl.pending_eq_nil hf)
  | timeoutNotified hc => exact .live (h.live_of_running hc.running).timedOut
  | timeoutReassigned hc hf hac he =>
    have hl := h.live_of_running hc.running
    obtain ⟨B, he, -⟩ := after_eq_ok_iff.mp he
    exact hl.ready.inv_of_entry so hl.running (hl.pending_eq_nil hf) hl.index_lt.le
      (fun heq => absurd heq hl.index_lt.ne) (enterStage_eq_ok_iff.mp he)
  | timeoutCancelled hc hf =>
    have hl := h.live_of_running hc.running
    exact .stopped (hl.stopped_cancelTask (hl.pending_eq_nil hf) _ _)
  | cancelledPending hp =>
    rw [h.unchecked_of_pending hp]
    have hrec := (ready_start s.taskId s.workflow).records
    exact .stopped ⟨Or.inr rfl, { hrec with reviewers := List.nodup_nil },
      List.length_pos_iff.mpr so.nonempty, rfl, fun hne => absurd rfl hne⟩
  | cancelledRunning hr hs hf =>
    have hl := h.live_of_running hr
    exact .stopped (hl.stopped_cancelTask (hl.pending_eq_nil hf) _ _)
  | mergeFailed hc hst hh he =>
    have hl := h.live_of_running hc.running
    exact (hl.mergeBack so ⟨_, hc.stage, WorkflowStage.isKind_merge_iff.mpr hst⟩ he).1
  | mergeCompleted hc hst hh hg =>
    have hl := h.live_of_running hc.running
    exact .finished (hl.finished_merge so ⟨_, hc.stage, WorkflowStage.isKind_merge_iff.mpr hst⟩ _)

/-! The task and its workflow never change. -/

namespace PipelineState

theorem HeadMove.taskId {change : PendingHeadChange} (hm : HeadMove s change s' A) :
    s'.taskId = s.taskId := by
  cases hm with
  | ignored => rfl
  | recorded hn => exact hn.frame.taskId
  | rechecked hn _ _ _ _ he => exact he.taskId.trans hn.frame.taskId
  | returned _ hd =>
    rw [returned_taskId]
    rcases hd with ⟨-, hn⟩ | ⟨-, rfl⟩
    · exact hn.frame.taskId
    · rfl

theorem FailMove.sameTask {reason : String} (hm : FailMove s reason s' A) :
    s'.workflow = s.workflow ∧ s'.taskId = s.taskId := by
  cases hm with
  | returned => exact ⟨returned_workflow, returned_taskId⟩
  | failed => exact ⟨rfl, rfl⟩

theorem MergeBack.sameTask (so : s.workflow.Sound) (h : s.Live) (hm : MergeBack s s' A) :
    s'.workflow = s.workflow ∧ s'.taskId = s.taskId := by
  cases hm with
  | repeated ht hb he => exact ⟨he.workflow, he.taskId⟩
  | moved hf happ =>
    obtain ⟨s1, B, heq, -, -, hw, ht⟩ := applyPending_rule
      (s := { s with pendingHeadChanges := [] }) (P := fun s1 _ => s1.taskId = s.taskId)
      (fun s1 s2 change last A so1 h1 _ hmv ht => hmv.taskId.trans ht) so (.live h.clearPending) rfl
      s.pendingHeadChanges [] rfl
    rw [heq] at happ
    cases happ
    exact ⟨hw, ht⟩

end PipelineState

theorem Accepted.sameTask (so : s.workflow.Sound) (h : s.Inv) (ha : Accepted s e s' A) :
    s'.workflow = s.workflow ∧ s'.taskId = s.taskId := by
  have entry : ∀ {s1 : PipelineState} {i : Nat} {B : List PipelineAction},
      s1.enterStage i = .ok (s', B) → s1.workflow = s.workflow → s1.taskId = s.taskId →
      s'.workflow = s.workflow ∧ s'.taskId = s.taskId := fun he hw ht =>
    have hE := enterStage_eq_ok_iff.mp he
    ⟨hE.workflow.trans hw, hE.taskId.trans ht⟩
  cases ha with
  | start hp hne he => exact entry he rfl rfl
  | workCompleted hc hst hm he =>
    exact entry he frame_takeProduct.workflow frame_takeProduct.taskId
  | submitted hc hst he => exact entry he rfl rfl
  | commandPassed hc hst he => exact entry he frame_recordPass.workflow frame_recordPass.taskId
  | commandFailed hc hst hx he =>
    exact ((h.live_of_running hc.running).failMove so he).sameTask
  | approvalCounted hc hst hb hr hp hlt =>
    exact ⟨(frame_choosePick hp).workflow, (frame_choosePick hp).taskId⟩
  | approvalMet hc hst hb hr hp hge he =>
    have hfr := frame_choosePick hp
    rcases completeApproval_eq_ok he with ⟨-, he⟩ | ⟨winner, B, -, -, he, -⟩
    · exact entry he hfr.workflow hfr.taskId
    · exact entry he hfr.workflow hfr.taskId
  | changesRequested hc hst hb he =>
    exact ((h.live_of_running hc.running).failMove so he).sameTask
  | commitKnown _ hr hs hw hh => split_ifs <;> exact ⟨rfl, rfl⟩
  | commitDeferred => exact ⟨rfl, rfl⟩
  | commitCreated hr hs hf hw hh he =>
    have hm := (h.live_of_running hr).headMove so he
    exact ⟨hm.workflow, hm.taskId⟩
  | advanceDeferred => exact ⟨rfl, rfl⟩
  | mainAdvanced hr hs hf hw he =>
    have hm := (h.live_of_running hr).headMove so he
    exact ⟨hm.workflow, hm.taskId⟩
  | fanoutCompleted hc hst hj hch he => exact entry he rfl rfl
  | fanoutFirst hc hst hch hw he =>
    obtain ⟨B, he, -⟩ := after_eq_ok_iff.mp he
    exact entry he rfl rfl
  | stageFailed hc hf he => exact ((h.live_of_running hc.running).failMove so he).sameTask
  | timeoutNotified => exact ⟨rfl, rfl⟩
  | timeoutReassigned hc hf hac he =>
    obtain ⟨B, he, -⟩ := after_eq_ok_iff.mp he
    exact entry he rfl rfl
  | timeoutCancelled => exact ⟨rfl, rfl⟩
  | cancelledPending => exact ⟨rfl, rfl⟩
  | cancelledRunning => exact ⟨rfl, rfl⟩
  | mergeFailed hc hst hh he =>
    have hl := h.live_of_running hc.running
    exact (hl.mergeBack so ⟨_, hc.stage, WorkflowStage.isKind_merge_iff.mpr hst⟩ he).2.2.sameTask so
      hl
  | mergeCompleted => exact ⟨rfl, rfl⟩

/-- The transition system of one task: it starts pending and takes the steps `step` accepts. -/
def pipeline (taskId : String) (w : ValidatedWorkflow) :
    Library.Machine PipelineState PipelineEvent (List PipelineAction) where
  init s := s = .new taskId w
  step s e s' A := step s e = .ok (s', A)

/-- What every state of a run satisfies. -/
structure Invariant (taskId : String) (w : ValidatedWorkflow) (s : PipelineState) : Prop where
  task : s.taskId = taskId
  workflow : s.workflow = w.workflow
  inv : s.Inv

theorem Invariant.sound {taskId : String} {w : ValidatedWorkflow} (h : Invariant taskId w s) :
    s.workflow.Sound := h.workflow ▸ w.sound

theorem Invariant.new (taskId : String) (w : ValidatedWorkflow) :
    Invariant taskId w (.new taskId w) := ⟨rfl, rfl, .pending rfl⟩

theorem Invariant.step {taskId : String} {w : ValidatedWorkflow} (h : Invariant taskId w s)
    (hs : step s e = .ok (s', A)) : Invariant taskId w s' := by
  have ha := step_eq_ok_iff.mp hs
  obtain ⟨hw, ht⟩ := ha.sameTask h.sound h.inv
  exact ⟨ht.trans h.task, hw.trans h.workflow, ha.inv h.sound h.inv⟩

theorem invariant_of_reachable {taskId : String} {w : ValidatedWorkflow}
    (h : (pipeline taskId w).Reachable s) : Invariant taskId w s :=
  h.invariant (by rintro s rfl; exact Invariant.new taskId w) fun _ _ _ _ hi hs => hi.step hs

/-- One accepted event with the states around it. -/
abbrev PipelineTransition :=
  Library.Transition PipelineState PipelineEvent (List PipelineAction)

/-- Deliver an event: one that `step` rejects changes nothing. -/
def deliver (s : PipelineState) (e : PipelineEvent) : PipelineState :=
  match step s e with
  | .ok r => r.1
  | .error _ => s

/-- The actions a delivered event causes. -/
def emitted (s : PipelineState) (e : PipelineEvent) : List PipelineAction :=
  match step s e with
  | .ok r => r.2
  | .error _ => []

theorem exists_of_isOk {ε α : Type} {x : Except ε α} (h : x.isOk = true) : ∃ a, x = .ok a := by
  cases x with
  | ok a => exact ⟨a, rfl⟩
  | error e => cases h

theorem step_eq_deliver (hok : (step s e).isOk = true) :
    step s e = .ok (deliver s e, emitted s e) := by
  obtain ⟨r, hs⟩ := exists_of_isOk hok
  rw [deliver, emitted, hs]

/-- Delivering an event that `step` accepts extends a run. -/
theorem run_deliver {taskId : String} {w : ValidatedWorkflow} {history : List PipelineTransition}
    (hr : (pipeline taskId w).Run history s) (hok : (step s e).isOk = true) :
    (pipeline taskId w).Run (⟨s, e, deliver s e, emitted s e⟩ :: history) (deliver s e) :=
  hr.snoc (step_eq_deliver hok)

/-- The state a script of events leads to. -/
def scripted (w : ValidatedWorkflow) (events : List PipelineEvent) : PipelineState :=
  events.foldl deliver (.new "task" w)

theorem run_foldl_deliver {taskId : String} {w : ValidatedWorkflow}
    {history : List PipelineTransition} (hr : (pipeline taskId w).Run history s)
    (events : List PipelineEvent) :
    ∃ history', (pipeline taskId w).Run history' (events.foldl deliver s) ∧
      ∀ t ∈ history', t ∈ history ∨ t.event ∈ events := by
  induction events generalizing s history with
  | nil => exact ⟨history, hr, fun t ht => Or.inl ht⟩
  | cons e rest ih =>
    obtain ⟨history1, h1, hmem⟩ : ∃ history1, (pipeline taskId w).Run history1 (deliver s e) ∧
        ∀ t ∈ history1, t ∈ history ∨ t.event = e := by
      cases hs : step s e with
      | error err =>
        have hd : deliver s e = s := by rw [deliver, hs]
        exact ⟨history, by rw [hd]; exact hr, fun t ht => Or.inl ht⟩
      | ok r =>
        refine ⟨_, run_deliver hr (e := e) (by rw [hs]; rfl), fun t ht => ?_⟩
        rcases List.mem_cons.mp ht with rfl | ht
        · exact Or.inr rfl
        · exact Or.inl ht
    obtain ⟨history', h', hmem'⟩ := ih h1
    refine ⟨history', h', fun t ht => ?_⟩
    rcases hmem' t ht with ht | ht
    · refine (hmem t ht).imp_right fun he => ?_
      rw [he]
      exact List.mem_cons_self
    · exact Or.inr (List.mem_cons_of_mem _ ht)

theorem run_scripted (w : ValidatedWorkflow) (events : List PipelineEvent) :
    ∃ history, (pipeline "task" w).Run history (scripted w events) ∧
      ∀ t ∈ history, t.event ∈ events := by
  obtain ⟨history, hr, hmem⟩ := run_foldl_deliver (Library.Machine.Run.start rfl) events
  exact ⟨history, hr, fun t ht => (hmem t ht).resolve_left (by simp)⟩

theorem reachable_scripted (w : ValidatedWorkflow) (events : List PipelineEvent) :
    (pipeline "task" w).Reachable (scripted w events) :=
  have ⟨_, hr, _⟩ := run_scripted w events
  hr.reachable

end Agend.Pipeline
