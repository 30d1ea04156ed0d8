import Mathlib.Data.List.Basic

/-! The merge gate and what a rebase does to an approval. -/
namespace Agend.Pipeline

/-- What one stage before the merge stage contributes to the gate. -/
inductive GateFact where
  | check (stageId : String) (passedHeads : List String)
  | approval (stageId : String) (bindHead : Bool) (approvals : List (Option String))
  deriving DecidableEq

def GateFact.isCheck : GateFact → Bool
  | check _ _ => true
  | approval _ _ _ => false

def GateFact.isBoundApproval : GateFact → Bool
  | check _ _ => false
  | approval _ bindHead _ => bindHead

inductive MergeBlocker where
  | noHead
  | noChecks
  | noBoundApproval
  | checksNotPassed (stageId : String)
  | approvalMissing (stageId : String)
  | headChanged (stageId : String)
  deriving DecidableEq

structure MergeGateResult where
  allowed : Bool
  blocker : Option MergeBlocker
  deriving DecidableEq

/-- Head-bound: some approval was given for exactly this head. Not head-bound: one exists. -/
def approvalSatisfied (bindHead : Bool) (approvals : List (Option String))
    (currentHead : Option String) : Bool :=
  if bindHead then currentHead.isSome && approvals.contains currentHead
  else !approvals.isEmpty

def factBlocker (head : String) : GateFact → Option MergeBlocker
  | .check stageId passedHeads =>
    if passedHeads.contains head then none else some (.checksNotPassed stageId)
  | .approval stageId bindHead approvals =>
    if approvalSatisfied bindHead approvals (some head) then none
    else if approvals.isEmpty then some (.approvalMissing stageId)
    else some (.headChanged stageId)

def blocker (currentHead : Option String) (facts : List GateFact) (allowUnreviewed : Bool) :
    Option MergeBlocker :=
  match currentHead with
  | none => some .noHead
  | some head =>
    if !facts.any GateFact.isCheck then some .noChecks
    else if !allowUnreviewed && !facts.any GateFact.isBoundApproval then some .noBoundApproval
    else facts.findSome? (factBlocker head)

def evaluate (currentHead : Option String) (facts : List GateFact) (allowUnreviewed : Bool) :
    MergeGateResult :=
  let b := blocker currentHead facts allowUnreviewed
  ⟨b.isNone, b⟩

structure RebaseOutcome where
  conflict : Bool
  rebasedHead : Option String
  previousPatchId : String
  rebasedPatchId : Option String
  deriving DecidableEq

inductive ApprovalAfterRebase where
  | keep (newApprovedHead : String)
  | returnToWork
  deriving DecidableEq

/-- Preserve review only for a clean rebase that leaves the branch diff intact. -/
def approvalAfterRebase (outcome : RebaseOutcome) : ApprovalAfterRebase :=
  if outcome.conflict || outcome.rebasedPatchId != some outcome.previousPatchId then .returnToWork
  else match outcome.rebasedHead with
    | some head => .keep head
    | none => .returnToWork

theorem evaluate_allowed_iff (currentHead : Option String) (facts : List GateFact)
    (allowUnreviewed : Bool) :
    (evaluate currentHead facts allowUnreviewed).allowed = true ↔
      ∃ head, currentHead = some head ∧ (∃ f ∈ facts, f.isCheck) ∧
        (allowUnreviewed = true ∨ ∃ f ∈ facts, f.isBoundApproval) ∧
        ∀ f ∈ facts, factBlocker head f = none := by
  cases currentHead with
  | none => simp [evaluate, blocker]
  | some head =>
    simp only [evaluate, blocker, Option.isNone_iff_eq_none, Option.some.injEq, exists_eq_left']
    by_cases hc : ∃ f ∈ facts, f.isCheck
    · have hc' : facts.any GateFact.isCheck = true := by simpa using hc
      by_cases ha : allowUnreviewed = true ∨ ∃ f ∈ facts, f.isBoundApproval
      · have ha' : (!allowUnreviewed && !facts.any GateFact.isBoundApproval) = false := by
          rcases ha with ha | ⟨f, hf, hb⟩
          · simp [ha]
          · have : facts.any GateFact.isBoundApproval = true := List.any_eq_true.mpr ⟨f, hf, hb⟩
            simp [this]
        simp [hc', ha', hc, ha]
      · have ha' : (!allowUnreviewed && !facts.any GateFact.isBoundApproval) = true := by
          simpa using ha
        simp only [hc', ha', ha]
        simp
    · have hc' : facts.any GateFact.isCheck = false := by simpa using hc
      simp [hc', hc]

theorem approvalAfterRebase_eq_keep_iff (conflict : Bool) (rebasedHead previous patch head : String) :
    approvalAfterRebase ⟨conflict, some rebasedHead, previous, if conflict then none else some patch⟩
        = .keep head ↔ conflict = false ∧ patch = previous ∧ rebasedHead = head := by
  cases conflict
  · by_cases h : patch = previous <;> simp [approvalAfterRebase, h]
  · simp [approvalAfterRebase]

end Agend.Pipeline
