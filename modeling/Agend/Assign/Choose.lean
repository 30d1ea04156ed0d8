import Mathlib.Data.String.Basic
import Mathlib.Data.Bool.Basic
import Agend.Library.KeySort
import Agend.Runtime.Records

/-! Which agent takes a task. -/
namespace Agend.Assign

open Library
open Agend.Runtime (Backend)

structure Candidate where
  instanceId : String
  teamId : String
  role : String
  backend : Backend
  /-- The one task this instance holds; none when it is free. -/
  heldTask : Option String
  /-- Spawned on demand within the role's maximum headcount. -/
  ephemeral : Bool
  usageAvailable : Bool
deriving DecidableEq

def Candidate.isFree (c : Candidate) : Bool := c.heldTask.isNone

structure RoleCapacity where
  minimumInstances : Nat
  maximumInstances : Nat
  currentInstances : Nat
deriving DecidableEq

inductive Purpose
  | newTask
  | review (taskHolder : String) (taskHolderBackend : Backend)
  | rework (taskId taskHolder : String) (branch : Option String) (reviewComments : List String)
deriving DecidableEq

structure AssignmentRequest where
  teamId : String
  role : String
  allowedBackends : List Backend
  /-- Backends whose usage quota can support a new instance. -/
  availableBackends : List Backend
  /-- None means the role does not exist in this team. -/
  roleCapacity : Option RoleCapacity
  purpose : Purpose
deriving DecidableEq

inductive QueueReason
  | atCapacity
  | usageLimit
  | invalidRoleCapacity
  | noAllowedBackend
  | noEligibleReviewer
deriving DecidableEq

/-- What a new task holder receives when a task changes hands. -/
structure Handoff where
  fromInstance : String
  branch : Option String
  reviewComments : List String
deriving DecidableEq

inductive AssignmentDecision
  | assigned (instanceId : String)
  | reassigned (instanceId : String) (handoff : Handoff)
  | spawnEphemeral (backend : Backend) (handoff : Option Handoff)
  | queue (reason : QueueReason)
  | askForRole (role : String)
deriving DecidableEq

def queueReason (capacity : RoleCapacity) : QueueReason :=
  if capacity.maximumInstances ≤ capacity.currentInstances then .atCapacity else .usageLimit

def isAllowed (c : Candidate) (allowedBackends : List Backend) : Bool :=
  decide (c.backend ∈ allowedBackends)

def roleCandidates (request : AssignmentRequest) (candidates : List Candidate) :
    List Candidate :=
  candidates.filter fun c => c.teamId = request.teamId && c.role = request.role

/-- Same-team, same-role instances on an allowed backend with usage left that hold no task, by
their ids. -/
def freeCandidates (request : AssignmentRequest) (candidates : List Candidate)
    (excludeInstance : Option String) : List Candidate :=
  sortByKey Candidate.instanceId ((roleCandidates request candidates).filter fun c =>
    isAllowed c request.allowedBackends && c.usageAvailable && c.isFree &&
      decide (excludeInstance ≠ some c.instanceId))

def validRoleCapacity (capacity : RoleCapacity) : Bool :=
  decide (capacity.minimumInstances ≤ capacity.maximumInstances) &&
    decide (capacity.currentInstances ≤ capacity.maximumInstances)

def spawnBackend (request : AssignmentRequest) (excludedBackend : Option Backend) :
    Option Backend :=
  match request.roleCapacity with
  | none => none
  | some capacity =>
    if !validRoleCapacity capacity || decide (capacity.maximumInstances ≤ capacity.currentInstances)
    then none
    else request.allowedBackends.find? fun backend =>
      decide (some backend ≠ excludedBackend) && decide (backend ∈ request.availableBackends)

/-- The task holder cannot continue: it is over its usage limit, or it was removed. -/
def takeOver (request : AssignmentRequest) (candidates : List Candidate)
    (current : Option Candidate) (handoff : Handoff) : AssignmentDecision :=
  match request.roleCapacity with
  | none => .askForRole request.role
  | some capacity =>
    if !validRoleCapacity capacity then .queue .invalidRoleCapacity
    else
      let excludedBackend := current.map Candidate.backend
      match (freeCandidates request candidates (some handoff.fromInstance)).find? fun c =>
          decide (some c.backend ≠ excludedBackend) with
      | some c => .reassigned c.instanceId handoff
      | none =>
        match spawnBackend request excludedBackend with
        | some backend => .spawnEphemeral backend (some handoff)
        | none => .queue (if current.isSome then .usageLimit else queueReason capacity)

/-- The task holder still counts only if it holds this task, its backend is still allowed and
the role still exists. -/
def isCurrent (request : AssignmentRequest) (taskId taskHolder : String) (c : Candidate) : Bool :=
  c.teamId = request.teamId && c.instanceId = taskHolder && c.heldTask = some taskId &&
    isAllowed c request.allowedBackends && request.roleCapacity.isSome

def eligible (request : AssignmentRequest) (candidates : List Candidate) : List Candidate :=
  match request.purpose with
  | .review taskHolder taskHolderBackend =>
    sortByKey (fun c => toLex (decide (c.backend = taskHolderBackend), c.instanceId))
      ((freeCandidates request candidates none).filter fun c => c.instanceId ≠ taskHolder)
  | _ => freeCandidates request candidates none

/-- A review prefers a backend other than the task holder's. -/
def preferredSpawn (request : AssignmentRequest) : Option Backend :=
  match request.purpose with
  | .review _ taskHolderBackend => spawnBackend request (some taskHolderBackend)
  | _ => none

/-- Every member of the role is the holder of the task under review. -/
def onlyHolder (request : AssignmentRequest) (candidates : List Candidate) : Bool :=
  match request.purpose with
  | .review taskHolder _ =>
    !(roleCandidates request candidates).isEmpty &&
      (roleCandidates request candidates).all fun c => c.instanceId = taskHolder
  | _ => false

def choose (request : AssignmentRequest) (candidates : List Candidate) : AssignmentDecision :=
  match request.purpose with
  | .rework taskId taskHolder branch reviewComments =>
    let handoff : Handoff := ⟨taskHolder, branch, reviewComments⟩
    match candidates.find? (isCurrent request taskId taskHolder) with
    | some current =>
      -- The task holder keeps the task: it cannot be busy with another one.
      if current.usageAvailable then .assigned taskHolder
      else takeOver request candidates (some current) handoff
    | none => takeOver request candidates none handoff
  | _ =>
    match request.roleCapacity with
    | none => .askForRole request.role
    | some capacity =>
      if !validRoleCapacity capacity then .queue .invalidRoleCapacity
      else
        match (eligible request candidates).head? with
        | some c => .assigned c.instanceId
        | none =>
          if (roleCandidates request candidates).isEmpty && request.allowedBackends.isEmpty then
            .queue .noAllowedBackend
          else
            match (preferredSpawn request).or (spawnBackend request none) with
            | some backend => .spawnEphemeral backend none
            | none =>
              if onlyHolder request candidates then .queue .noEligibleReviewer
              else .queue (queueReason capacity)

end Agend.Assign
