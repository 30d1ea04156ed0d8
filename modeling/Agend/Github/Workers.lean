import Agend.Engine.Lifecycle
import Agend.Github.World

/-! What the workers of a task do on GitHub: submit, merge and clean up. -/
namespace Agend.Github

open Library Program

abbrev Routine (α : Type) := Program interface α

def call (c : Call) : Routine c.Reply := Program.ask (I := interface) c

def marker (change : GithubChange) : String :=
  s!"<!-- agend:{change.identity.taskId}:{change.identity.nonce} -->"

/-- Whether one of the lines of the body is this one. -/
def hasLine (body line : String) : Bool :=
  let (whole, rest) := cutLines '\n' [] body.toList
  let unreturned (l : List Char) : List Char :=
    if l.getLast? = some '\r' then l.dropLast else l
  (whole.map unreturned ++ [rest]).contains line.toList

/-! Reading. -/

def ownedPull (change : GithubChange) (pull : Pull) : Routine Unit :=
  check (pull.repositoryId = change.identity.repositoryId &&
    pull.body.any fun body => hasLine body (marker change))
    "GitHub PR ownership differs; no mutation permitted"

/-- The pull requests of one page: each is looked up, and there may be one. -/
def adopt (change : GithubChange) : List Nat → Option Pull → Routine (Option Pull)
  | [], found => pure found
  | number :: rest, found => do
    check (0 < number) "GitHub PR list has no number"
    let pull : Pull ← call (.pull number)
    ownedPull change pull
    check found.isNone "multiple PRs match owned branch; inspect before proceeding"
    adopt change rest (some pull)

def findPages (change : GithubChange) : Nat → Nat → Option Pull → Routine (Option Pull)
  | 0, _, _ => raise "GitHub PR search exceeded bounded pages; no mutation permitted"
  | pages + 1, page, found => do
    let list : List Nat ← call (.page page)
    let found ← adopt change list found
    if list.length < 100 then pure found else findPages change pages (page + 1) found

/-- Search only the fixed branch and base; a saturated search is inconclusive. -/
def findOwnedPull (change : GithubChange) : Routine (Option Pull) :=
  findPages change 10 1 none

/-- The merge commit must have the approved head as its second parent. -/
def receipt (pull : Pull) (approved : String) : Routine Unit := do
  check (fullSha approved && pull.head = approved)
    "GitHub receipt does not match the approved head"
  check pull.merged "GitHub has not confirmed this merge"
  let sha ← orRaise pull.mergeCommit "GitHub has not confirmed this merge"
  let commit : Commit ← call (.commit sha)
  check (commit.sha = sha && commit.parents.length = 2 && commit.parents[0]?.all fullSha &&
    commit.parents[1]? = some approved)
    "GitHub merge commit does not contain the approved head"

/-! Saving. -/

/-- One more version, of which the worker goes on. -/
def saveChange (process : Nat) (refused : String) (record : VersionedGithubChange) :
    Routine VersionedGithubChange := do
  let saved : Bool ← call (.save process (some record.revision) record.change)
  check saved refused
  pure { record with revision := record.revision + 1 }

/-- The change with its pending push confirmed. -/
def GithubChange.reconciled (change : GithubChange) : GithubChange :=
  { change with pushedHead := change.pushIntent, pushIntent := none }

/-! Pushing. -/

def stalePush : String := "GitHub push ownership revision changed"

/-- No automatic retry: the exact remote reference decides whether the push completed. -/
def pushTo (process : Nat) (record : VersionedGithubChange) (head : String) :
    Routine VersionedGithubChange := do
  check (record.change.cleanup = {} && record.change.mergeHead.isNone)
    "GitHub merge or cleanup has begun; no new push permitted"
  call (.checkRef record.change.identity.branch)
  check (fullSha head) "push requires a complete existing commit id"
  let commit : String ← call (.resolve head)
  check (commit = head) "push requires a complete existing commit id"
  let remote : Option String ← call .remoteHead
  match record.change.pushIntent with
  | some intent => do
    check (remote = some intent)
      "GitHub push outcome unknown or remote head changed; original attempt retained"
    let record ← saveChange process stalePush { record with change := record.change.reconciled }
    check (record.change.pushedHead = some head)
      "previous push reconciled; resubmit current head separately"
    pure record
  | none => do
    check (remote = record.change.pushedHead)
      "remote branch differs from owned head; refusing to overwrite it"
    if remote = some head then pure record
    else do
      let record ← saveChange process stalePush
        { record with change := { record.change with pushIntent := some head } }
      let _ ← attempt (call (.issue ⟨process, record.revision,
        .push record.change.pushedHead head⟩))
      let remote : Option String ← call .remoteHead
      check (remote = some head) "GitHub push not confirmed; original attempt retained"
      saveChange process stalePush { record with change := record.change.reconciled }

def pushOwned (process : Nat) (record : VersionedGithubChange) (head : String) :
    Routine VersionedGithubChange := do
  let repository : String ← call .originRepository
  check (repository = record.change.identity.repository)
    "GitHub origin differs from durable ownership"
  pushTo process record head

/-! Submitting. -/

structure Submission where
  branch : String
  title : String
  body : String

/-- The pull request that is submitted: the one that is known or found, or a new one. -/
def ensurePull (process : Nat) (record : VersionedGithubChange) (title body : String) :
    Routine (VersionedGithubChange × Pull) :=
  match record.change.pullNumber with
  | some number => do
    let pull : Pull ← call (.pull number)
    ownedPull record.change pull
    pure (record, pull)
  | none => do
    let found ← findOwnedPull record.change
    match found with
    | some pull => do
      check record.change.createAttempted "unattempted GitHub creation has an unexpected PR"
      pure (record, pull)
    | none => do
      check (!record.change.createAttempted)
        "GitHub PR creation outcome unknown; original attempt will not be replayed"
      let record ← saveChange process "GitHub submission ownership revision changed"
        { record with change := { record.change with createAttempted := true } }
      let _ ← attempt (call (.issue ⟨process, record.revision,
        .create title (body ++ "\n\n" ++ marker record.change) record.change.identity.branch
          record.change.identity.base⟩))
      let found ← findOwnedPull record.change
      let pull ← orRaise found "GitHub PR creation not confirmed; original attempt retained"
      pure (record, pull)

/-- The receipt of a pull request that the ledger does not name yet. -/
def recordPull (process : Nat) (record : VersionedGithubChange) (pull : Pull) : Routine Unit :=
  match record.change.pullNumber with
  | some _ => pure ()
  | none => do
    let _ ← saveChange process "GitHub PR receipt ownership revision changed"
      { record with change := { record.change with pullNumber := some pull.number } }
    pure ()

/-- The branch must already have been pushed and confirmed in the ledger. -/
def submitPull (process : Nat) (repository : String) (record : VersionedGithubChange)
    (title body : String) : Routine Pull := do
  let text := "GitHub submission identity or pushed head is not confirmed"
  check (record.change.identity.repository = repository && record.change.identity.base = "main")
    text
  let id : Nat ← call .repositoryId
  check (id = record.change.identity.repositoryId && record.change.pushIntent.isNone &&
    record.change.pushedHead.isSome) text
  let (record, pull) ← ensurePull process record title body
  recordPull process record pull
  check (!pull.closed && some pull.head = record.change.pushedHead)
    "GitHub submitted PR is closed or its head changed"
  pure pull

/-- The ledger of the task; the checkout is part of its identity. The branch of another task has
another row. -/
def owned (task repo branch : String) : Routine VersionedGithubChange := do
  check (Engine.taskIdOfBranch branch = some task) "GitHub branch has no task identity"
  let row : Option VersionedGithubChange ← call .load
  let record ← orRaise row "GitHub branch has no durable ownership"
  check (record.change.identity.branch = branch && record.change.identity.localRepo = repo)
    "GitHub branch differs from durable ownership"
  pure record

/-- A new row; a concurrent claimant wins. -/
def claimRow (process : Nat) (change : String → GithubChange) :
    Option VersionedGithubChange → Routine Unit
  | some _ => pure ()
  | none => do
    let nonce : String ← call .newSessionId
    let _ ← call (.save process none (change nonce))
    pure ()

def submit (process : Nat) (task repo : String) (submission : Submission) : Routine Pull := do
  check (Engine.taskIdOfBranch submission.branch = some task)
    "GitHub submission branch does not belong to task"
  let repository : String ← call .originRepository
  let id : Nat ← call .repositoryId
  let row : Option VersionedGithubChange ← call .load
  claimRow process (fun nonce => ⟨⟨task, repo, repository, id, "main", submission.branch, nonce⟩,
    none, none, none, false, none, {}⟩) row
  let record ← owned task repo submission.branch
  check (record.change.identity.repository = repository &&
    record.change.identity.repositoryId = id) "GitHub repository differs from durable ownership"
  let head : String ← call (.resolve submission.branch)
  let record ← pushOwned process record head
  submitPull process repository record submission.title submission.body

/-! Merging. -/

inductive MergeResult where
  | merged
  | headChanged (actual : String)
  deriving DecidableEq

/-- Whether a response that reports success names the merge that GitHub shows. -/
def agrees (after : Pull) : Except String Response → Bool
  | .ok reply =>
    reply.status ≠ 200 || (reply.merged = some true && reply.sha = after.mergeCommit)
  | .error _ => true

def unconfirmed : Except String Response → String
  | .ok reply => "GitHub merge not confirmed (HTTP " ++ toString reply.status ++
      "); inspect the original PR before retrying"
  | .error _ => "GitHub merge outcome unknown; inspect the original PR before retrying"

/-- What GitHub shows after the PUT decides, whatever its reply was. -/
def mergeOutcome (change : GithubChange) (approved : String) (after : Pull)
    (written : Except String Response) : Routine MergeResult := do
  ownedPull change after
  if after.head ≠ approved then pure (.headChanged after.head)
  else if after.merged then do
    check (agrees after written) "GitHub merge response and durable receipt differ"
    receipt after approved
    pure .merged
  else raise (unconfirmed written)

/-- The claim is saved before the PUT. -/
def mergeWrite (process number : Nat) (record : VersionedGithubChange) (approved : String) :
    Routine MergeResult := do
  let record' ← saveChange process "GitHub merge ownership revision changed"
    { record with change := { record.change with mergeHead := some approved } }
  let written ← attempt (call (.issue ⟨process, record'.revision, .merge number approved⟩))
  let after : Pull ← call (.pull number)
  mergeOutcome record.change approved after written

def mergeChecked (process number : Nat) (record : VersionedGithubChange) (approved : String) :
    Routine MergeResult := do
  let before : Pull ← call (.pull number)
  ownedPull record.change before
  if before.head ≠ approved || !fullSha approved then pure (.headChanged before.head)
  else if before.merged then do
    receipt before approved
    pure .merged
  else do
    check (!before.closed) "GitHub pull request was closed without merging"
    call .strictBase
    mergeWrite process number record approved

def mergeOwned (process number : Nat) (record : VersionedGithubChange) (approved : String) :
    Routine MergeResult := do
  check (record.change.identity.base = "main") "GitHub merge repository differs from ownership"
  let id : Nat ← call .repositoryId
  check (id = record.change.identity.repositoryId)
    "GitHub merge repository differs from ownership"
  mergeChecked process number record approved

def mergePull (process number : Nat) (record : VersionedGithubChange) (expectedHead : String)
    (before : Pull) : Routine MergeResult :=
  if before.head ≠ expectedHead then pure (.headChanged before.head)
  else if before.merged then do
    receipt before expectedHead
    pure .merged
  else do
    check (!before.closed) "GitHub PR closed without merging"
    check record.change.mergeHead.isNone
      "GitHub merge outcome unresolved; inspect the original PR; no repeat merge permitted"
    mergeOwned process number record expectedHead

def mergeIfHeadIs (process : Nat) (task repo branch expectedHead : String) : Routine Unit := do
  let record ← owned task repo branch
  check (record.change.mergeHead.all (· = expectedHead))
    "GitHub head differs from durable merge attempt"
  check record.change.pushIntent.isNone "GitHub push has an unresolved outcome"
  let repository : String ← call .originRepository
  check (repository = record.change.identity.repository)
    "GitHub merge repository differs from ownership"
  let id : Nat ← call .repositoryId
  check (id = record.change.identity.repositoryId)
    "GitHub merge repository differs from ownership"
  let number ← orRaise record.change.pullNumber "GitHub merge has no owned PR"
  let before : Pull ← call (.pull number)
  ownedPull record.change before
  let result ← mergePull process number record expectedHead before
  if result = .merged then call .syncMain else pure ()

/-! Cleaning up. -/

def staleCleanup : String := "GitHub cleanup ownership revision changed"

/-- The pull request of the task, and the record that names it. -/
def cleanupPull (process : Nat) (record : VersionedGithubChange) :
    Routine (VersionedGithubChange × Option Pull) :=
  match record.change.pullNumber with
  | some number => do
    let pull : Pull ← call (.pull number)
    pure (record, some pull)
  | none => do
    if record.change.createAttempted then do
      let found ← findOwnedPull record.change
      let pull ← orRaise found
        "GitHub PR creation outcome remains unknown; preserve remote branch"
      let record ← saveChange process staleCleanup
        { record with change := { record.change with pullNumber := some pull.number } }
      pure (record, some pull)
    else pure (record, none)

/-- An open pull request is closed once. -/
def closePull (process : Nat) (record : VersionedGithubChange) (pull : Pull) :
    Routine VersionedGithubChange := do
  check (record.change.pushedHead = some pull.head || record.change.pushIntent = some pull.head)
    "GitHub PR head changed; cleanup will not close it"
  check (!record.change.cleanup.closeAttempted)
    "GitHub PR close outcome unknown; close the owned PR before retrying"
  let record ← saveChange process staleCleanup { record with
    change := { record.change with
      cleanup := { record.change.cleanup with closeAttempted := true } } }
  let _ ← attempt (call (.issue ⟨process, record.revision, .close pull.number⟩))
  let after : Pull ← call (.pull pull.number)
  ownedPull record.change after
  check (after.closed && !after.merged) "GitHub PR close not confirmed; remote branch retained"
  pure record

/-- Nothing of the pull request stays open. -/
def settlePull (process : Nat) (record : VersionedGithubChange) (merged : Bool) :
    Option Pull → Routine VersionedGithubChange
  | some pull => do
    ownedPull record.change pull
    if merged then do
      let approved ← orRaise (record.change.mergeHead.or record.change.pushedHead)
        "GitHub cleanup has no confirmed head"
      receipt pull approved
      pure record
    else do
      check (!pull.merged)
        "GitHub PR merged outside task completion; inspect before cleanup"
      check record.change.mergeHead.isNone
        "GitHub merge outcome unresolved; preserve PR and branch for reconciliation"
      if pull.closed then pure record else closePull process record pull
  | none => do
    check (!merged) "GitHub completed task has no owned PR"
    pure record

/-- A pending push that is on the branch is confirmed. -/
def reconcilePush (process : Nat) (record : VersionedGithubChange) (head : String) :
    Routine VersionedGithubChange :=
  match record.change.pushIntent with
  | some intent => do
    check (intent = head) "GitHub pending push differs from remote branch; preserve it"
    saveChange process staleCleanup { record with change := record.change.reconciled }
  | none => pure record

/-- A branch that has the owned head is deleted once. -/
def deleteBranch (process : Nat) (record : VersionedGithubChange) :
    Option String → Routine VersionedGithubChange
  | none => pure record
  | some head => do
    check (!record.change.cleanup.deleteAttempted)
      "GitHub branch deletion outcome unknown or branch recreated; no repeat deletion"
    let record ← reconcilePush process record head
    check (record.change.pushedHead = some head)
      "GitHub remote branch changed; cleanup will not delete it"
    let record ← saveChange process staleCleanup { record with
      change := { record.change with
        cleanup := { record.change.cleanup with deleteAttempted := true } } }
    let _ ← attempt (call (.issue ⟨process, record.revision, .delete head⟩))
    let remote : Option String ← call .remoteHead
    check remote.isNone "GitHub branch deletion not confirmed; original attempt retained"
    pure record

/-- What is left of the task on GitHub goes, and the record says so. -/
def cleanupRow (process : Nat) (repo : String) (merged : Bool) (record : VersionedGithubChange) :
    Routine Unit := do
  check (record.change.identity.localRepo = repo) "GitHub cleanup local repository differs"
  let repository : String ← call .originRepository
  check (repository = record.change.identity.repository)
    "GitHub cleanup repository identity differs"
  let id : Nat ← call .repositoryId
  check (id = record.change.identity.repositoryId)
    "GitHub cleanup repository identity differs"
  let origin : String ← call .originRepository
  check (origin = record.change.identity.repository) "GitHub cleanup origin changed"
  let (record, pull) ← cleanupPull process record
  let record ← settlePull process record merged pull
  let remote : Option String ← call .remoteHead
  let record ← deleteBranch process record remote
  let _ ← saveChange process staleCleanup { record with
    change := { record.change with
      cleanup := { record.change.cleanup with complete := true } } }
  pure ()

def cleanup (process : Nat) (repo : String) (merged : Bool) : Routine Unit := do
  let row : Option VersionedGithubChange ← call .load
  match row with
  | none => pure ()
  | some record =>
    if record.change.cleanup.complete then pure () else cleanupRow process repo merged record

inductive Task where
  | submit (repo : String) (submission : Submission)
  | merge (repo branch expectedHead : String)
  | cleanup (repo : String) (merged : Bool)

def main (task : String) (process : Nat) : Task → Routine Unit
  | .submit repo submission => do
    let _ ← submit process task repo submission
    pure ()
  | .merge repo branch expectedHead => mergeIfHeadIs process task repo branch expectedHead
  | .cleanup repo merged => cleanup process repo merged

/-- A worker that ends leaves its requests behind. -/
def system (task : String) : System interface where
  Task := Task
  main := main task
  leave _ w := w

end Agend.Github
