import Agend.Pipeline.Shape

/-! What the record operations leave alone, and what they do to the records. -/
namespace Agend.Pipeline.PipelineState

/-- The position and the observations that no record operation touches. -/
structure Frame (s s' : PipelineState) : Prop where
  taskId : s'.taskId = s.taskId
  workflow : s'.workflow = s.workflow
  stageIndex : s'.stageIndex = s.stageIndex
  status : s'.status = s.status
  changeId : s'.changeId = s.changeId
  attempts : s'.attempts = s.attempts
  mergeCommit : s'.mergeCommit = s.mergeCommit
  pendingHeadChanges : s'.pendingHeadChanges = s.pendingHeadChanges
  notifiedTimeout : s'.notifiedTimeout = s.notifiedTimeout
  pendingWorkReason : s'.pendingWorkReason = s.pendingWorkReason

variable {s : PipelineState}

theorem frame_recordNewHead {head patch : String} : Frame s (s.recordNewHead head patch) := by
  constructor <;> rfl

theorem frame_takeProduct {product : WorkProduct} : Frame s (s.takeProduct product) := by
  cases product with
  | branch => unfold takeProduct; simp only; split_ifs <;> constructor <;> rfl
  | result => constructor <;> rfl
  | plan => unfold takeProduct; simp only; split_ifs <;> constructor <;> rfl

theorem frame_recordPass {id : String} {head : Option String} : Frame s (s.recordPass id head) := by
  unfold recordPass
  split_ifs <;> constructor <;> rfl

/-- A pick counts only with a child every reviewer so far agrees on. -/
theorem choosePick_eq {next : PipelineState} {child : Option String}
    (h : s.choosePick child = .ok next) :
    next = s ∧ child = none ∧ s.workflow.picks s.stageIndex = false ∨
      ∃ winner ∈ s.fanoutChildTaskIds, next = { s with pendingPick := some winner } ∧
        (∀ p ∈ s.pendingPick, p = winner) ∧ (∀ c ∈ child, c = winner) ∧
        s.workflow.picks s.stageIndex = true := by
  unfold choosePick at h
  split_ifs at h with hp hc
  · right
    cases ho : child.or s.pendingPick with
    | none => simp [ho] at h
    | some winner =>
      simp only [ho] at h
      split_ifs at h with hw
      cases h
      simp only [Bool.or_eq_true, Bool.not_eq_true', not_or, Bool.not_eq_false,
        List.contains_iff_mem, Option.any_eq_true, decide_eq_true_eq, not_exists, not_and,
        Decidable.not_not] at hw
      refine ⟨winner, hw.1, rfl, hw.2, ?_, hp⟩
      rintro c rfl
      simpa using ho
  · cases h
    exact Or.inl ⟨rfl, by simpa using hc, by simpa using hp⟩

theorem frame_choosePick {next : PipelineState} {child : Option String}
    (h : s.choosePick child = .ok next) : Frame s next := by
  rcases choosePick_eq h with ⟨rfl, -⟩ | ⟨_, -, rfl, -⟩ <;> constructor <;> rfl

theorem choosePick_reviewers {next : PipelineState} {child : Option String}
    (h : s.choosePick child = .ok next) : next.approvalReviewers = s.approvalReviewers := by
  rcases choosePick_eq h with ⟨rfl, -⟩ | ⟨_, -, rfl, -⟩ <;> rfl

theorem after_eq_ok_iff {actions A : List PipelineAction} {outcome : Outcome}
    {s' : PipelineState} : Outcome.after actions outcome = .ok (s', A) ↔
      ∃ B, outcome = .ok (s', B) ∧ A = actions ++ B := by
  cases outcome with
  | error e => simp [Outcome.after, Except.map]
  | ok r =>
    obtain ⟨s1, B⟩ := r
    simp [Outcome.after, Except.map, eq_comm]

theorem completeApproval_eq (s : PipelineState) (id : String) (bound : Bool)
    (head : Option String) : s.completeApproval id bound head =
      if s.workflow.picks s.stageIndex then
        match s.pendingPick with
        | none => .error .fanoutSelectionRequired
        | some winner =>
          Outcome.after (keepOnlyWinner
            { s.recordApproval id bound head with pendingPick := none } winner).2
            ((keepOnlyWinner { s.recordApproval id bound head with pendingPick := none }
              winner).1.enterStage (s.stageIndex + 1))
      else (s.recordApproval id bound head).enterStage (s.stageIndex + 1) := rfl

/-- A met approval is recorded; a picked winner is kept before the next stage is entered. -/
theorem completeApproval_eq_ok {id : String} {bound : Bool} {head : Option String}
    {s' : PipelineState} {A : List PipelineAction}
    (h : s.completeApproval id bound head = .ok (s', A)) :
    s.workflow.picks s.stageIndex = false ∧
        (s.recordApproval id bound head).enterStage (s.stageIndex + 1) = .ok (s', A) ∨
      ∃ winner B, s.workflow.picks s.stageIndex = true ∧ s.pendingPick = some winner ∧
        (keepOnlyWinner { s.recordApproval id bound head with pendingPick := none }
          winner).1.enterStage (s.stageIndex + 1) = .ok (s', B) ∧
        A = (keepOnlyWinner { s.recordApproval id bound head with pendingPick := none }
          winner).2 ++ B := by
  unfold completeApproval at h
  simp only at h
  split_ifs at h with hp
  · right
    cases hw : s.pendingPick with
    | none => simp [recordApproval, hw] at h
    | some winner =>
      simp only [recordApproval, hw, after_eq_ok_iff] at h
      obtain ⟨B, hB, rfl⟩ := h
      exact ⟨winner, B, hp, rfl, by simpa only [recordApproval, hw] using hB,
        by simp only [recordApproval, hw]⟩
  · exact Or.inl ⟨by simpa using hp, h⟩

/-- Everything bound to the head comes after the last branch work, so the recheck target is the
first head-bound stage up to the current one. -/
theorem recheckTarget_eq_some_iff (sh : s.workflow.Shape) {current target : Nat}
    (hc : current < s.workflow.stages.length) :
    s.recheckTarget current = some target ↔ target ≤ current ∧
      s.workflow.At target (·.isHeadBound) ∧ ∀ j < target, ¬ s.workflow.At j (·.isHeadBound) := by
  have bound : ∀ {i j}, s.workflow.At i (·.isHeadBound) → s.workflow.At j (·.isKind .work) →
      j < i := by
    rintro i j ⟨st, hs, hb⟩ hj
    exact sh.workBefore i j ⟨st, hs, WorkflowStage.needsHead_of_isHeadBound hb⟩ hj
  unfold recheckTarget
  rw [List.getElem?_eq_getElem hc]
  simp only
  split_ifs with hw
  · simp only [false_iff, not_and]
    intro hle hb
    have := bound hb ⟨_, List.getElem?_eq_getElem hc, hw⟩
    omega
  · set start := (lastIndexBefore s.workflow.stages current (·.isBranchWork)).elim 0 (· + 1)
    have hstart : ∀ j, s.workflow.At j (·.isHeadBound) → start ≤ j := by
      intro j hj
      cases hl : lastIndexBefore s.workflow.stages current (·.isBranchWork) with
      | none => simp [start, hl]
      | some b =>
        obtain ⟨-, ⟨st, hs, hb⟩, -⟩ := lastIndexBefore_eq_some_iff.mp hl
        have := bound hj ⟨st, hs, WorkflowStage.isKind_work_of_isBranchWork hb⟩
        simp only [start, hl, Option.elim_some]
        omega
    simp only [List.find?_range'_eq_some, Workflow.any_getElem?_iff, List.mem_range'_1,
      Bool.not_eq_true', Bool.eq_false_iff, ne_eq]
    constructor
    · rintro ⟨hb, hmem, hfirst⟩
      exact ⟨by omega, hb, fun j hj hbj => hfirst j (hstart j hbj) hj hbj⟩
    · rintro ⟨hle, hb, hfirst⟩
      have := hstart target hb
      exact ⟨hb, by omega, fun j _ hj => hfirst j hj⟩

theorem recheckTarget_eq_none_iff (sh : s.workflow.Shape) {current : Nat}
    (hc : current < s.workflow.stages.length) :
    s.recheckTarget current = none ↔ ∀ j ≤ current, ¬ s.workflow.At j (·.isHeadBound) := by
  constructor
  · intro hn j hj hb
    -- The first head-bound stage up to `current` would be the target.
    induction j using Nat.strongRecOn with
    | ind j ih =>
      have : s.recheckTarget current = some j := (recheckTarget_eq_some_iff sh hc).mpr
        ⟨hj, hb, fun k hk => ih k hk (by omega)⟩
      rw [hn] at this
      cases this
  · intro h
    cases ht : s.recheckTarget current with
    | none => rfl
    | some t =>
      obtain ⟨hle, hb, -⟩ := (recheckTarget_eq_some_iff sh hc).mp ht
      exact absurd hb (h t hle)

end Agend.Pipeline.PipelineState
