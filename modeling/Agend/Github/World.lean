import Mathlib.Algebra.Group.Nat.Defs
import Agend.Library.Lines
import Agend.Library.Processes
import Agend.Library.Versions

/-! The ledger of one task and what one version of it may become, the branch of the task on GitHub,
and what its workers ask for. -/
namespace Agend.Github

open Library

/-- Immutable identity, committed before any remote branch or PR mutation. -/
structure GithubIdentity where
  taskId : String
  localRepo : String
  repository : String
  repositoryId : Nat
  base : String
  branch : String
  nonce : String
  deriving DecidableEq

structure GithubCleanup where
  closeAttempted : Bool := false
  deleteAttempted : Bool := false
  complete : Bool := false
  deriving DecidableEq

structure GithubChange where
  identity : GithubIdentity
  pullNumber : Option Nat
  /-- The last head confirmed on the owned remote branch. -/
  pushedHead : Option String
  /-- Persisted before pushing; a lost response must reconcile this head first. -/
  pushIntent : Option String
  /-- Persisted before a PR create attempt. Never cleared to authorize replay. -/
  createAttempted : Bool
  /-- Claimed before PUT; unresolved merges can only be reconciled by reads. -/
  mergeHead : Option String
  cleanup : GithubCleanup
  deriving DecidableEq

def fullSha (s : String) : Bool :=
  s.utf8ByteSize = 40 && s.toList.all fun c => c.isDigit || ('a' ≤ c && c ≤ 'f')

namespace GithubChange

def wellFormed (self : GithubChange) : Bool :=
  let i := self.identity
  !(i.taskId = "" || i.localRepo = "" || i.repository = "" || i.repositoryId = 0 ||
    i.base = "" || i.branch = "" || i.nonce = "" || self.pullNumber = some 0 ||
    (self.pushedHead.toList ++ self.pushIntent.toList ++ self.mergeHead.toList).any
      (fun s => !fullSha s) ||
    (self.pullNumber.isSome && !self.createAttempted))

/-- What nothing was attempted for yet. -/
def isNew (self : GithubChange) : Bool :=
  self.pullNumber.isNone && self.pushedHead.isNone && self.pushIntent.isNone &&
    !self.createAttempted && self.mergeHead.isNone && self.cleanup = {}

def takesBack (self old : GithubChange) : Bool :=
  old.mergeHead.any (fun head => self.mergeHead ≠ some head) ||
    (self.mergeHead.isSome && self.pullNumber.isNone) ||
    (old.mergeHead.isNone && self.mergeHead.isSome &&
      (old.cleanup ≠ {} || old.pushIntent.isSome)) ||
    (old.mergeHead.isSome &&
      (self.pushIntent ≠ old.pushIntent || self.pushedHead ≠ old.pushedHead)) ||
    (old.cleanup.complete && self ≠ old) ||
    (old.cleanup.closeAttempted && !self.cleanup.closeAttempted) ||
    (old.cleanup.deleteAttempted && !self.cleanup.deleteAttempted) ||
    self.identity ≠ old.identity ||
    (old.createAttempted && !self.createAttempted) ||
    (self.pullNumber.isSome && !old.createAttempted) ||
    (!old.createAttempted && self.createAttempted &&
      (old.pushedHead.isNone || old.pushIntent.isSome)) ||
    old.pullNumber.any (fun n => self.pullNumber ≠ some n)

/-- Only one durable identity and PR may ever belong to a task. -/
def follows (self : GithubChange) (previous : Option GithubChange) : Bool :=
  self.wellFormed &&
    match previous with
    | none => self.isNew
    | some old =>
      !self.takesBack old &&
        -- A pending push cannot be replaced.
        if old.pushIntent.isSome && self.pushIntent ≠ old.pushIntent then
          self.pushIntent.isNone && self.pushedHead = old.pushIntent
        else self.pushedHead = old.pushedHead

variable {old new : GithubChange} {head : String}

/-- What a version keeps of the one before. -/
structure Keeps (old new : GithubChange) : Prop where
  identity : new.identity = old.identity
  create : old.createAttempted = true → new.createAttempted = true
  merge : ∀ head, old.mergeHead = some head → new.mergeHead = some head
  close : old.cleanup.closeAttempted = true → new.cleanup.closeAttempted = true
  delete : old.cleanup.deleteAttempted = true → new.cleanup.deleteAttempted = true
  complete : old.cleanup.complete = true → new = old
  /-- A merge begins with a PR, before any cleanup and with no push pending. -/
  mergeable : old.mergeHead = none → new.mergeHead.isSome = true →
    old.cleanup = {} ∧ old.pushIntent = none
  /-- A pending push stays, or was confirmed. -/
  pending : ∀ head, old.pushIntent = some head →
    new.pushIntent = some head ∧ new.pushedHead = old.pushedHead ∨
      new.pushIntent = none ∧ new.pushedHead = some head
  pushed : old.pushIntent = none → new.pushedHead = old.pushedHead

theorem keeps_of_follows (h : new.follows (some old) = true) : Keeps old new := by
  unfold follows at h
  obtain ⟨-, h⟩ := Bool.and_eq_true_iff.mp h
  obtain ⟨hback, hpush⟩ := Bool.and_eq_true_iff.mp h
  simp only [takesBack, Bool.not_eq_true', Bool.or_eq_false_iff, Bool.and_eq_false_iff,
    Option.any_eq_false, decide_eq_false_iff_not, ne_eq, not_not, Bool.not_eq_false',
    Option.isNone_eq_false_iff, Option.isSome_eq_false_iff] at hback
  obtain ⟨⟨⟨⟨⟨⟨⟨⟨⟨⟨⟨hmerge, -⟩, hmergeable⟩, -⟩, hcomplete⟩, hclose⟩, hdelete⟩, hidentity⟩,
    hcreate⟩, -⟩, -⟩, -⟩ := hback
  constructor
  case identity => exact hidentity
  case create => exact fun h => hcreate.resolve_left (by simp [h])
  case merge => exact hmerge
  case close => exact fun h => hclose.resolve_left (by simp [h])
  case delete => exact fun h => hdelete.resolve_left (by simp [h])
  case complete => exact fun h => hcomplete.resolve_left (by simp [h])
  case mergeable =>
    intro hold hnew
    have hlater := hmergeable.resolve_left (by simp [hold, Option.isSome_iff_ne_none.mp hnew])
    exact ⟨hlater.1, Option.isNone_iff_eq_none.mp hlater.2⟩
  case pending =>
    intro head hold
    simp only [hold, Option.isSome_some, Bool.true_and, decide_eq_true_eq] at hpush
    split_ifs at hpush with hsame
    · simp only [Bool.and_eq_true, Option.isNone_iff_eq_none, decide_eq_true_eq] at hpush
      exact .inr hpush
    · simp only [ne_eq, not_not] at hsame
      exact .inl ⟨hsame, by simpa using hpush⟩
  case pushed =>
    intro hold
    simpa [hold] using hpush

theorem isNew_of_follows (h : new.follows none = true) : new.pushedHead = none ∧
    new.pushIntent = none ∧ new.createAttempted = false ∧ new.mergeHead = none ∧
      new.cleanup = {} := by
  have hnew := (Bool.and_eq_true_iff.mp h).2
  simp only [isNew, Bool.and_eq_true, Option.isNone_iff_eq_none, Bool.not_eq_true',
    decide_eq_true_eq] at hnew
  obtain ⟨⟨⟨⟨⟨-, hpushed⟩, hintent⟩, hcreate⟩, hmerge⟩, hcleanup⟩ := hnew
  exact ⟨hpushed, hintent, hcreate, hmerge, hcleanup⟩

/-- The order of the versions of a ledger. -/
def Follows (previous : Option GithubChange) (self : GithubChange) : Prop :=
  self.follows previous = true

end GithubChange

structure VersionedGithubChange where
  revision : Nat
  change : GithubChange
  deriving DecidableEq

/-- A pull request as it was validated. -/
structure Pull where
  number : Nat
  repositoryId : Nat
  body : Option String
  head : String
  closed : Bool
  merged : Bool
  mergeCommit : Option String
  deriving DecidableEq

/-- What is asked of GitHub once at most. -/
inductive Mutation where
  | push (lease : Option String) (head : String)
  | create (title body head base : String)
  | merge (number : Nat) (sha : String)
  | close (number : Nat)
  | delete (lease : String)
  deriving DecidableEq

/-- A mutation, and the revision of the record that its worker holds. -/
structure Request where
  process : Nat
  revision : Nat
  mutation : Mutation
  deriving DecidableEq

/-- The head that the branch must have for the write, and the one that it gets. -/
def Mutation.ref : Mutation → Option (Option String × Option String)
  | .push lease head => some (lease, some head)
  | .delete lease => some (some lease, none)
  | _ => none

inductive Kind where
  | push | create | merge | close | delete
  deriving DecidableEq

def Mutation.kind : Mutation → Kind
  | .push _ _ => .push
  | .create _ _ _ _ => .create
  | .merge _ _ => .merge
  | .close _ => .close
  | .delete _ => .delete

/-- A write that took effect on the branch, and the head that it replaced. -/
structure Write where
  request : Request
  replaced : Option String
  deriving DecidableEq

/-- The versions of the ledger with the worker that saved each, the branch, and the requests that
may still land. `issued` and `written` keep what was asked for and what took effect; `foreign` says
that somebody else changed the branch. -/
structure World where
  saves : List (Nat × GithubChange)
  remote : Option String
  flight : List Request
  issued : List Request
  written : List Write
  foreign : Bool

/-- A response to a mutation: the merge that it reports. -/
structure Response where
  status : Nat
  merged : Option Bool
  sha : Option String
  deriving DecidableEq

structure Commit where
  sha : String
  parents : List String
  deriving DecidableEq

/-- What happens outside: a request lands, or another writer changes the branch. -/
inductive Move where
  | land (k : Nat)
  | foreign (head : Option String)
  deriving DecidableEq

inductive Call where
  | load
  | save (process : Nat) (expected : Option Nat) (change : GithubChange)
  | originRepository
  | repositoryId
  | newSessionId
  | checkRef (branch : String)
  | resolve (commit : String)
  | remoteHead
  | pull (number : Nat)
  | page (number : Nat)
  | commit (sha : String)
  | strictBase
  | issue (request : Request)
  | syncMain
  deriving DecidableEq

def Call.Reply : Call → Type
  | .load => Option VersionedGithubChange
  | .save _ _ _ => Bool
  | .originRepository => String
  | .repositoryId => Nat
  | .newSessionId => String
  | .resolve _ => String
  | .remoteHead => Option String
  | .pull _ => Pull
  | .page _ => List Nat
  | .commit _ => Commit
  | .issue _ => Response
  | _ => Unit

/-- What the environment decides about a call: what happened before it, whether it fails and yet has
its effect, and what comes from elsewhere. -/
structure Answer where
  moves : List Move := []
  fault : Option String := none
  landed : Bool := false
  text : String := ""
  number : Nat := 0
  pull : Pull := ⟨0, 0, none, "", false, false, none⟩
  page : List Nat := []
  commit : Commit := ⟨"", []⟩
  response : Response := ⟨0, none, none⟩

namespace World

variable (w : World) (a : Answer)

def versions : List GithubChange := w.saves.map (·.2)

/-- The row of the task: the last version, and how many there were. -/
def ledger : Option VersionedGithubChange :=
  w.versions.getLast?.map fun change => ⟨w.saves.length, change⟩

/-- A request lands: a write takes effect on the branch only while its lease holds. -/
def land (k : Nat) : World :=
  match w.flight[k]? with
  | none => w
  | some request =>
    let w := { w with flight := w.flight.eraseIdx k }
    match request.mutation.ref with
    | some (lease, head) =>
      if w.remote = lease then
        { w with remote := head, written := ⟨request, lease⟩ :: w.written }
      else w
    | none => w

def move : Move → World
  | .land k => w.land k
  | .foreign head => { w with remote := head, foreign := true }

def outside (moves : List Move) : World := moves.foldl move w

/-- Compare and swap; nothing changes when the revision is stale or the change does not follow. -/
def saveGithubChange (process : Nat) (expected : Option Nat) (change : GithubChange) :
    Except String Bool × World :=
  if w.ledger.map (·.revision) ≠ expected then (.ok false, w)
  else if !change.follows (w.ledger.map (·.change)) then
    (.error "invalid GitHub ownership transition", w)
  else if expected.getD 0 + 1 < 2 ^ 63 then
    (.ok true, { w with saves := w.saves ++ [(process, change)] })
  else (.error "GitHub ownership revision exhausted", w)

def perform : (c : Call) → Except String c.Reply × World
  | .load => (.ok w.ledger, w)
  | .save process expected change => w.saveGithubChange process expected change
  | .originRepository => (.ok a.text, w)
  | .repositoryId => (.ok a.number, w)
  | .newSessionId => (.ok a.text, w)
  | .checkRef _ => (.ok (), w)
  | .resolve _ => (.ok a.text, w)
  | .remoteHead => (.ok w.remote, w)
  | .pull _ => (.ok a.pull, w)
  | .page _ => (.ok a.page, w)
  | .commit _ => (.ok a.commit, w)
  | .strictBase => (.ok (), w)
  | .issue request =>
    let w := { w with flight := request :: w.flight, issued := request :: w.issued }
    (.ok a.response, if a.landed then w.land 0 else w)
  | .syncMain => (.ok (), w)

/-- A call that fails may have had its effect. -/
def exec (c : Call) : Except String c.Reply × World :=
  let w := w.outside a.moves
  match a.fault, c with
  | some reason, .issue request => (.error reason, (w.perform a (.issue request)).2)
  | some reason, c => (.error reason, if a.landed then (w.perform a c).2 else w)
  | none, c => w.perform a c

end World

def interface : Interface World String where
  Call := Call
  Reply := Call.Reply
  Answer := Answer
  exec c a w := w.exec a c

end Agend.Github
