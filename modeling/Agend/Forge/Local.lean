import Agend.Engine.Lifecycle
import Agend.Library.History
import Agend.Library.Trace

/-! The local forge: one worker at a time merges a task's branch into main, step by step, while
others commit to branches and move main. Commits are the entries of a history, which is what git
keeps of them; what git reads of a worktree is answered from outside. -/
namespace Agend.Forge

open Library
open Agend.Engine (taskIdOfBranch)

/-- What a commit holds besides its parents; the message is kept as its lines. -/
structure Content where
  tree : String
  message : List String
  stamp : Nat
  deriving DecidableEq

abbrev Commits := History Content

inductive LocalError where
  | failed (message : String)
  | blocked (message : String)
  deriving DecidableEq

inductive MergeResult where
  | merged (mergeCommit : Nat)
  | headChanged (actualHead : Nat)
  deriving DecidableEq

/-- A call of `merge_if_head_is`, and the base of main its forge was made with. -/
structure Call where
  branch : String
  expectedHead : Nat
  expectedMain : Option Nat
  deriving DecidableEq

structure Repo where
  commits : Commits
  main : Nat
  branches : List (String × Nat)
  deriving DecidableEq

def Repo.head (r : Repo) (branch : String) : Option Nat := r.branches.lookup branch

/-- What some reference reaches. -/
def Repo.visible (r : Repo) (i : Nat) : Bool :=
  r.commits.isAncestor i r.main || r.branches.any fun b => r.commits.isAncestor i b.2

def Repo.setBranch (r : Repo) (branch : String) (i : Nat) : Repo :=
  { r with branches := (branch, i) :: r.branches.filter fun b => b.1 ≠ branch }

/-- A new commit at the tip of a branch. -/
def Repo.commit (r : Repo) (branch : String) (parents : List Nat) (content : Content) : Repo :=
  let grown := { r with commits := r.commits ++ [(⟨parents, content⟩ : Node Content)] }
  grown.setBranch branch r.commits.length

structure Row where
  title : List String
  version : Nat
  deriving DecidableEq

/-- The row of the task, the merge intent of its pipeline, and the intents among its events. -/
structure Store where
  row : Option Row
  progress : Option (Option Nat)
  intents : List Nat
  deriving DecidableEq

inductive CasResult where
  | written
  | conflict
  deriving DecidableEq

/-- `advance_task` with the row as it was read: the intent and its event, in one transaction. -/
def Store.advanceTask (s : Store) (version intent : Nat) : CasResult × Store :=
  match s.row with
  | some row =>
    if row.version = version then
      (.written, { s with
        row := some { row with version := version + 1 }
        progress := some (some intent)
        intents := intent :: s.intents })
    else (.conflict, s)
  | none => (.conflict, s)

/-- One block of `git worktree list`, with what is found at its path. -/
structure Worktree where
  onMain : Bool
  path : Option String
  canonical : Except String String
  clean : Except String Bool

/-- The checkout of main that the merge may use: the repository itself, and clean. -/
def mainCheckout (repo : Except String String) : List Worktree → Except LocalError (Option String)
  | [] => .ok none
  | w :: rest => do
    let found ← if w.onMain then do
        let _ ← okOr w.path (.failed "invalid worktree list")
        let path ← w.canonical.mapError .failed
        let repo ← repo.mapError .failed
        require (path = repo) (.blocked ("main is checked out at " ++ path))
        let clean ← w.clean.mapError .failed
        require (clean = true) (.blocked ("canonical checkout " ++ path ++
          " is dirty or has concealed index entries; commit or stash changes and clear index flags"))
        pure (some path)
      else pure none
    let later ← mainCheckout repo rest
    pure (later.or found)

/-- What the worktrees, the merge of the trees, the clock and the store answer, and whether the
result of a command is lost. -/
structure Answers where
  repo : Except String String
  worktrees : List Worktree
  mergeTree : Except String String
  stamp : Nat
  stored : Except String Unit
  lost : Option String

/-- A merge commit that was made and is not on main yet. -/
structure Planned where
  call : Call
  main : Nat
  checkout : Option String
  row : Row
  commit : Nat
  deriving DecidableEq

/-- Where the worker is: what it reads or does next. -/
inductive Phase where
  | idle
  /-- `rev-parse --verify` of the expected head. -/
  | verify (c : Call)
  /-- The last 1000 first parents of main, for the trailer. -/
  | history (c : Call)
  | loadIntent (c : Call)
  /-- Whether the intent is on main, and what it is. -/
  | intent (c : Call) (i : Nat)
  /-- Whether the expected head is on main. -/
  | onMain (c : Call)
  /-- Which first parent of main reached it first. -/
  | firstOnMain (c : Call)
  | head (c : Call)
  | readMain (c : Call)
  | worktrees (c : Call) (main : Nat)
  | mergeTree (c : Call) (main : Nat) (checkout : Option String)
  | loadTask (c : Call) (main : Nat) (checkout : Option String) (tree : String)
  | commitTree (c : Call) (main : Nat) (checkout : Option String) (tree : String) (row : Row)
  | loadProgress (p : Planned)
  | advanceTask (p : Planned)
  | recheckMain (p : Planned)
  | recheckHead (p : Planned)
  | move (p : Planned)
  deriving DecidableEq

/-- The call that is running. -/
def Phase.call : Phase → Option Call
  | .idle => none
  | .verify c | .history c | .loadIntent c | .intent c _ | .onMain c | .firstOnMain c | .head c
  | .readMain c | .worktrees c _ | .mergeTree c _ _ | .loadTask c _ _ _ | .commitTree c _ _ _ _ =>
    some c
  | .loadProgress p | .advanceTask p | .recheckMain p | .recheckHead p | .move p => some p.call

structure World where
  repo : Repo
  store : Store
  phase : Phase
  /-- The merge commits that the worker made, newest first. -/
  made : List Nat
  /-- Those it moved main to. -/
  moved : List Nat
  deriving DecidableEq

abbrev Result := Except LocalError MergeResult

section
variable (task : String)

def trailer : String := "Agend-Task: " ++ task

/-- A merge of `head` that names the task. -/
def isMergeOf (commits : Commits) (head i : Nat) : Bool :=
  match commits[i]? with
  | some n => n.parents.length = 2 && n.parents[1]? = some head && n.content.message.contains
      (trailer task)
  | none => false

/-- The message of the merge commit. -/
def mergeMessage (branch : String) (title : List String) : List String :=
  (("Merge " ++ branch ++ ": " ++ title.headD "") :: title.tail) ++ ["", trailer task]

namespace World

variable (s : World)

def goto (phase : Phase) : World × Option Result := ({ s with phase }, none)

def done (result : Result) : World × Option Result := ({ s with phase := .idle }, some result)

/-- `git commit-tree`: the commit with this content, unless it exists already. -/
def commitTree (parents : List Nat) (content : Content) : World × Nat :=
  match s.repo.commits.findIdx? fun n => n.parents = parents && n.content = content with
  | some i => (s, i)
  | none =>
    let commits := s.repo.commits ++ [(⟨parents, content⟩ : Node Content)]
    ({ s with
      repo := { s.repo with commits }
      made := s.repo.commits.length :: s.made }, s.repo.commits.length)

/-- `find_merge`, one read at a time; `none` of them finds a merge before the head is read. -/
def find : Phase → Option (World × Option Result)
  | .verify c =>
    if c.expectedHead < s.repo.commits.length then some (s.goto (.history c))
    else some (s.goto (.head c))
  | .history c =>
    let line := s.repo.commits.firstParents (s.repo.main + 1) s.repo.main
    match (line.take 1000).find? (isMergeOf task s.repo.commits c.expectedHead) with
    | some i => some (s.done (.ok (.merged i)))
    | none => some (s.goto (.loadIntent c))
  | .loadIntent c =>
    match s.store.progress with
    | some (some i) => some (s.goto (.intent c i))
    | _ => some (s.goto (.onMain c))
  | .intent c i =>
    if s.repo.commits.isAncestor i s.repo.main && isMergeOf task s.repo.commits c.expectedHead i then
      some (s.done (.ok (.merged i)))
    else some (s.goto (.onMain c))
  | .onMain c =>
    if s.repo.commits.isAncestor c.expectedHead s.repo.main then some (s.goto (.firstOnMain c))
    else some (s.goto (.head c))
  | .firstOnMain c =>
    let line := s.repo.commits.firstParents (s.repo.main + 1) s.repo.main
    match line.reverse.find? (s.repo.commits.isAncestor c.expectedHead) with
    | some i => some (s.done (.ok (.merged i)))
    | none => some (s.goto (.head c))
  | _ => none

/-- The reads between, up to the tree of the merge. -/
def prepare (a : Answers) : Phase → Option (World × Option Result)
  | .head c =>
    match s.repo.head c.branch with
    | none => some (s.done (.error (.failed "no such branch")))
    | some actual =>
      if actual = c.expectedHead then some (s.goto (.readMain c))
      else some (s.done (.ok (.headChanged actual)))
  | .readMain c =>
    if c.expectedMain.any fun expected => expected ≠ s.repo.main then
      some (s.done (.error (.failed "main advanced; rebase required")))
    else some (s.goto (.worktrees c s.repo.main))
  | .worktrees c main =>
    match mainCheckout a.repo a.worktrees with
    | .ok checkout => some (s.goto (.mergeTree c main checkout))
    | .error e => some (s.done (.error e))
  | .mergeTree c main checkout =>
    match a.mergeTree with
    | .ok tree => some (s.goto (.loadTask c main checkout tree))
    | .error e => some (s.done (.error (.failed e)))
  | .loadTask c main checkout tree =>
    match s.store.row with
    | some row => some (s.goto (.commitTree c main checkout tree row))
    | none => some (s.done (.error (.failed "unknown task")))
  | _ => none

/-- `git commit-tree`, and the intent that precedes any move of main. -/
def plan (a : Answers) : Phase → Option (World × Option Result)
  | .commitTree c main checkout tree row =>
    let (s, i) := s.commitTree [main, c.expectedHead]
      ⟨tree, mergeMessage task c.branch row.title, a.stamp⟩
    match a.lost with
    | some e => some (s.done (.error (.failed e)))
    | none => some (s.goto (.loadProgress ⟨c, main, checkout, row, i⟩))
  | .loadProgress p =>
    match s.store.progress with
    | some _ => some (s.goto (.advanceTask p))
    | none => some (s.done (.error (.failed "missing pipeline snapshot")))
  | .advanceTask p =>
    match a.stored with
    | .error e => some (s.done (.error (.failed e)))
    | .ok () =>
      match s.store.advanceTask p.row.version p.commit with
      | (.written, store) => some ({ s with store }.goto (.recheckMain p))
      | (.conflict, _) => some (s.done (.error (.failed "merge intent CAS conflict")))
  | _ => none

/-- The command that moves main: a fast-forward of the checkout, or a compare-and-swap of the
reference. Nothing when it refuses. -/
def moveMain (p : Planned) : Option Repo :=
  match p.checkout with
  | some _ =>
    if s.repo.commits.isAncestor s.repo.main p.commit then some { s.repo with main := p.commit }
    else if s.repo.commits.isAncestor p.commit s.repo.main then some s.repo
    else none
  | none => if s.repo.main = p.main then some { s.repo with main := p.commit } else none

/-- Both references again, and the move. -/
def finish (a : Answers) : Phase → Option (World × Option Result)
  | .recheckMain p =>
    if s.repo.main = p.main then some (s.goto (.recheckHead p))
    else some (s.done (.error (.failed "refs moved before merge")))
  | .recheckHead p =>
    if s.repo.head p.call.branch = some p.call.expectedHead then some (s.goto (.move p))
    else some (s.done (.error (.failed "refs moved before merge")))
  | .move p =>
    match s.moveMain p with
    | none => some (s.done (.error (.failed "git refused to move main")))
    | some repo =>
      let s := { s with repo, moved := p.commit :: s.moved }
      match a.lost with
      | some e => some (s.done (.error (.failed e)))
      | none => some (s.done (.ok (.merged p.commit)))
  | _ => none

/-- One step of `merge_if_head_is`. -/
def work (a : Answers) : Option (World × Option Result) :=
  (s.find task s.phase).or <| (s.prepare a s.phase).or <| (s.plan task a s.phase).or <|
    s.finish a s.phase

end World

inductive Event where
  | call (c : Call)
  | work (a : Answers)
  /-- The daemon ends: the call is gone, and nothing else. -/
  | crash
  /-- Somebody commits to a branch, on commits that some reference reaches. -/
  | commit (branch : String) (parents : List Nat) (content : Content)
  /-- Somebody puts a branch on a commit that some reference reaches. -/
  | reset (branch : String) (i : Nat)
  /-- Somebody fast-forwards main to a commit that some reference reaches. -/
  | push (i : Nat)
  /-- Anything else that is stored for the task. -/
  | store (row : Option Row) (progress : Option (Option Nat))

def World.next (s : World) : Event → Option (World × Option Result)
  | .call c =>
    if s.phase = .idle then
      match taskIdOfBranch c.branch with
      | none => some (s.done (.error (.failed "branch is outside agend namespace")))
      | some id => if id = task then some (s.goto (.verify c)) else none
    else none
  | .work a => s.work task a
  | .crash => some ({ s with phase := .idle }, none)
  | .commit branch parents content =>
    if parents.all s.repo.visible then
      some ({ s with repo := s.repo.commit branch parents content }, none)
    else none
  | .reset branch i =>
    if s.repo.visible i then some ({ s with repo := s.repo.setBranch branch i }, none) else none
  | .push i =>
    if s.repo.visible i && s.repo.commits.isAncestor s.repo.main i then
      some ({ s with repo := { s.repo with main := i } }, none)
    else none
  | .store row progress => some ({ s with store := { s.store with row, progress } }, none)

/-- Any repository whose references are in its history, and no call before. -/
structure World.Fresh (s : World) : Prop where
  founded : s.repo.commits.Founded
  main : s.repo.main < s.repo.commits.length
  branches : ∀ b ∈ s.repo.branches, b.2 < s.repo.commits.length
  phase : s.phase = .idle
  made : s.made = []
  moved : s.moved = []

def forge : Machine World Event (Option Result) where
  init s := s.Fresh
  step s e s' o := s.next task e = some (s', o)

end

end Agend.Forge
