import Agend.Engine.Records

/-! Assignment rules for role templates: the daemon supplies the candidates of a team with what
each holds, and the choice among them is deterministic. -/
namespace Agend.Engine

open Agend.Runtime

def allBackends : List Backend := [.claude, .codex, .opencode]

structure Candidate where
  instanceId : String
  teamId : String
  role : String
  backend : Backend
  heldTask : Option String
  ephemeral : Bool
  usageAvailable : Bool
  deriving DecidableEq

def Candidate.isFree (c : Candidate) : Bool := c.heldTask.isNone

structure RoleCapacity where
  minimumInstances : Nat
  maximumInstances : Nat
  currentInstances : Nat
  deriving DecidableEq

inductive Purpose where
  | newTask
  | review (taskHolder : String) (taskHolderBackend : Backend)
  | rework (taskId taskHolder : String) (branch : Option String) (reviewComments : List String)
  deriving DecidableEq

structure AssignmentRequest where
  teamId : String
  role : String
  allowedBackends : List Backend
  availableBackends : List Backend
  roleCapacity : Option RoleCapacity
  purpose : Purpose
  deriving DecidableEq

inductive QueueReason where
  | atCapacity
  | usageLimit
  | invalidRoleCapacity
  | noAllowedBackend
  | noEligibleReviewer
  deriving DecidableEq

/-- What a new task holder receives when a task changes hands. -/
structure Handoff where
  fromInstance : String
  branch : Option String
  reviewComments : List String
  deriving DecidableEq

inductive AssignmentDecision where
  | assigned (instanceId : String)
  | reassigned (instanceId : String) (handoff : Handoff)
  | spawnEphemeral (backend : Backend) (handoff : Option Handoff)
  | queue (reason : QueueReason)
  | askForRole (role : String)
  deriving DecidableEq

def queueReason (c : RoleCapacity) : QueueReason :=
  if c.maximumInstances ≤ c.currentInstances then .atCapacity else .usageLimit

def validRoleCapacity (c : RoleCapacity) : Bool :=
  c.minimumInstances ≤ c.maximumInstances && c.currentInstances ≤ c.maximumInstances

namespace AssignmentRequest

variable (request : AssignmentRequest) (candidates : List Candidate)

def isAllowed (c : Candidate) : Bool := request.allowedBackends.contains c.backend

def roleCandidates : List Candidate :=
  candidates.filter fun c => c.teamId = request.teamId && c.role = request.role

/-- Same-team, same-role instances on an allowed backend with usage left that hold no task, by
instance id. -/
def freeCandidates (exclude : Option String) : List Candidate :=
  ((request.roleCandidates candidates).filter fun c =>
      request.isAllowed c && c.usageAvailable && c.isFree &&
        decide (exclude ≠ some c.instanceId)).insertionSort
    fun a b => a.instanceId ≤ b.instanceId

def spawnBackend (excluded : Option Backend) : Option Backend := do
  let capacity ← request.roleCapacity
  if !validRoleCapacity capacity || decide (capacity.maximumInstances ≤ capacity.currentInstances)
  then none
  else request.allowedBackends.find? fun b =>
    decide (some b ≠ excluded) && request.availableBackends.contains b

/-- The task holder cannot continue: a usage limit, or it was removed. -/
def takeOver (current : Option Candidate) (handoff : Handoff) : AssignmentDecision :=
  match request.roleCapacity with
  | none => .askForRole request.role
  | some capacity =>
    if !validRoleCapacity capacity then .queue .invalidRoleCapacity
    else
      let excluded := current.map (·.backend)
      match (request.freeCandidates candidates (some handoff.fromInstance)).find?
          fun c => decide (some c.backend ≠ excluded) with
      | some c => .reassigned c.instanceId handoff
      | none =>
        match request.spawnBackend excluded with
        | some backend => .spawnEphemeral backend (some handoff)
        | none => .queue (if current.isSome then .usageLimit else queueReason capacity)

/-- The reviewers on another backend than the task holder's come first. -/
def reviewBefore (holderBackend : Backend) (a b : Candidate) : Bool :=
  if a.backend = holderBackend then
    b.backend = holderBackend && decide (a.instanceId ≤ b.instanceId)
  else b.backend = holderBackend || decide (a.instanceId ≤ b.instanceId)

/-- The free candidates in the order in which a new assignment takes them. -/
def eligible : List Candidate :=
  match request.purpose with
  | .review holder holderBackend =>
    ((request.freeCandidates candidates none).filter fun c => c.instanceId ≠ holder).insertionSort
      fun a b => reviewBefore holderBackend a b
  | _ => request.freeCandidates candidates none

/-- Nobody is free: spawn, or say why the assignment waits. -/
def unassigned (capacity : RoleCapacity) : AssignmentDecision :=
  let roles := request.roleCandidates candidates
  if roles.isEmpty && request.allowedBackends.isEmpty then .queue .noAllowedBackend
  else
    let preferred := match request.purpose with
      | .review _ holderBackend => request.spawnBackend (some holderBackend)
      | _ => none
    match preferred.or (request.spawnBackend none) with
    | some backend => .spawnEphemeral backend none
    | none =>
      match request.purpose with
      | .review holder _ =>
        if !roles.isEmpty && roles.all (·.instanceId = holder) then .queue .noEligibleReviewer
        else .queue (queueReason capacity)
      | _ => .queue (queueReason capacity)

/-- The task holder, as long as it holds this task and may still run. -/
def currentHolder (taskId taskHolder : String) : Option Candidate :=
  candidates.find? fun c =>
    c.teamId = request.teamId && c.instanceId = taskHolder && c.heldTask = some taskId &&
      request.isAllowed c && request.roleCapacity.isSome

end AssignmentRequest

open AssignmentRequest

def choose (request : AssignmentRequest) (candidates : List Candidate) : AssignmentDecision :=
  match request.purpose with
  | .rework taskId taskHolder branch reviewComments =>
    let current := request.currentHolder candidates taskId taskHolder
    if current.any (·.usageAvailable) then .assigned taskHolder
    else request.takeOver candidates current ⟨taskHolder, branch, reviewComments⟩
  | _ =>
    match request.roleCapacity with
    | none => .askForRole request.role
    | some capacity =>
      if !validRoleCapacity capacity then .queue .invalidRoleCapacity
      else match request.eligible candidates with
        | c :: _ => .assigned c.instanceId
        | [] => request.unassigned candidates capacity

variable {request : AssignmentRequest} {candidates : List Candidate} {i : String}

theorem mem_freeCandidates {exclude : Option String} {c : Candidate}
    (h : c ∈ request.freeCandidates candidates exclude) :
    c ∈ candidates ∧ c.teamId = request.teamId ∧ c.role = request.role ∧
      c.usageAvailable = true ∧ c.heldTask = none := by
  obtain ⟨hmem, hfree⟩ := List.mem_filter.mp ((List.mem_insertionSort _).mp h)
  obtain ⟨hc, hrole⟩ := List.mem_filter.mp hmem
  simp only [Bool.and_eq_true, decide_eq_true_eq, Candidate.isFree, Option.isNone_iff_eq_none]
    at hrole hfree
  exact ⟨hc, hrole.1, hrole.2, hfree.1.1.2, hfree.1.2⟩

theorem takeOver_ne_assigned {current : Option Candidate} {handoff : Handoff} :
    request.takeOver candidates current handoff ≠ .assigned i := by
  intro h
  unfold takeOver at h
  split at h
  · cases h
  · split at h
    · cases h
    · simp only at h
      split at h
      · cases h
      · split at h <;> cases h

theorem unassigned_ne_assigned {capacity : RoleCapacity} :
    request.unassigned candidates capacity ≠ .assigned i := by
  intro h
  simp only [unassigned] at h
  split_ifs at h
  split at h
  · cases h
  · split at h
    · split_ifs at h
    · cases h

/-- As long as somebody is eligible, somebody is chosen. -/
theorem exists_choose {capacity : RoleCapacity} {c : Candidate}
    (hp : ∀ t h b c, request.purpose ≠ .rework t h b c) (hcap : request.roleCapacity = some capacity)
    (hv : validRoleCapacity capacity = true) (hc : c ∈ request.eligible candidates) :
    ∃ j, choose request candidates = .assigned j := by
  unfold choose
  split
  · exact absurd ‹_› (hp _ _ _ _)
  · rw [hcap]
    simp only [hv, Bool.not_true, Bool.false_eq_true, if_false]
    split
    · exact ⟨_, rfl⟩
    · rename_i hnone
      rw [hnone] at hc
      cases hc

/-- Whoever is chosen for a new task or a review is a free member of the team with the role. -/
theorem choose_free (hp : ∀ t h b c, request.purpose ≠ .rework t h b c)
    (h : choose request candidates = .assigned i) :
    ∃ c ∈ candidates, c.instanceId = i ∧ c.teamId = request.teamId ∧ c.role = request.role ∧
      c.usageAvailable = true ∧ c.heldTask = none ∧
      ∀ holder b, request.purpose = .review holder b → i ≠ holder := by
  unfold choose at h
  split at h
  · rename_i hcon
    exact absurd hcon (hp _ _ _ _)
  · split at h
    · cases h
    · split_ifs at h
      split at h
      · rename_i c rest heq
        have hc : c ∈ request.eligible candidates := heq ▸ List.mem_cons_self
        obtain rfl := AssignmentDecision.assigned.inj h
        unfold eligible at hc
        split at hc
        · rename_i holder b hpur
          obtain ⟨hfree, hne⟩ := List.mem_filter.mp ((List.mem_insertionSort _).mp hc)
          obtain ⟨h1, h2, h3, h4, h5⟩ := mem_freeCandidates hfree
          refine ⟨c, h1, rfl, h2, h3, h4, h5, fun holder' b' he => ?_⟩
          rw [hpur] at he
          cases he
          exact of_decide_eq_true hne
        · rename_i hpur
          obtain ⟨h1, h2, h3, h4, h5⟩ := mem_freeCandidates hc
          exact ⟨c, h1, rfl, h2, h3, h4, h5, fun holder b he => absurd he (hpur holder b)⟩
      · exact absurd h unassigned_ne_assigned

/-- Whoever is chosen to go on with a task is the holder, and it holds that task. -/
theorem choose_rework {t holder : String} {b : Option String} {comments : List String}
    (hp : request.purpose = .rework t holder b comments)
    (h : choose request candidates = .assigned i) :
    i = holder ∧ ∃ c ∈ candidates, c.instanceId = holder ∧ c.heldTask = some t := by
  unfold choose at h
  rw [hp] at h
  simp only at h
  split_ifs at h with hc
  · rw [Option.any_eq_true_iff_get] at hc
    obtain ⟨hs, -⟩ := hc
    obtain ⟨c, hcur⟩ := Option.isSome_iff_exists.mp hs
    have hcond := List.find?_some hcur
    simp only [Bool.and_eq_true, decide_eq_true_eq] at hcond
    exact ⟨(AssignmentDecision.assigned.inj h).symm, c, List.mem_of_find?_eq_some hcur,
      hcond.1.1.1.2, hcond.1.1.2⟩
  · exact absurd h takeOver_ne_assigned

end Agend.Engine
