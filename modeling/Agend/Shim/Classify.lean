import Agend.Library.Except
import Agend.Pipeline.Workflow
import Agend.Shim.Location

/-! Whether a git call runs as it is, in the bound worktree, or is refused with the next step. -/
namespace Agend.Shim

open Library Library.Path
open Pipeline (isWhiteSpace)

def trim (s : String) : String :=
  String.ofList (((s.toList.dropWhile isWhiteSpace).reverse.dropWhile isWhiteSpace).reverse)

structure Refusal where
  code : String
  reason : String
  next : String
  deriving DecidableEq

inductive Binding where
  | work (taskId branch worktree : String)
  | review (taskId head worktree : String)
  deriving DecidableEq

namespace Binding

def worktree : Binding → String
  | .work _ _ worktree | .review _ _ worktree => worktree

def branch : Binding → Option String
  | .work _ branch _ => some branch
  | .review .. => none

/-- The branches that the agent may write. -/
def namespace_ : Binding → Option String
  | .work taskId _ _ => some s!"agend/{taskId}/"
  | .review .. => none

end Binding

structure Snapshot where
  instanceId : String
  sourceRepo : Option String
  protectedRefs : List String
  binding : Option Binding
  deriving DecidableEq

/-- Why the snapshot cannot be used; the other reasons are only shown. -/
inductive SnapshotError where
  | notAnAgent
  | unusable (text : String)
  deriving DecidableEq

def SnapshotError.display : SnapshotError → String
  | .notAnAgent => "AGEND_HOME and AGEND_INSTANCE are not both set"
  | .unusable text => text

/-- `main`, `master` and the refs of the snapshot, whole or up to a star. -/
def isProtected (extra : List String) (fullRef : String) : Bool :=
  (["main", "master"] ++ extra.map trim).any fun p =>
    let p := if startsWith "refs/" p then p else "refs/heads/" ++ p
    if p.toList.getLast? = some '*' then startsWith (String.ofList p.toList.dropLast) fullRef
    else fullRef = p

/-- Questions that only git or the file system can answer. -/
structure Probe where
  isTeamRepo : Bool
  isTeamRemote : String → Bool
  git : List String → Option String
  hooksInstalled : Bool

/-- The caller's git environment, as it affects where a write lands. -/
structure GitEnv where
  retargets : Bool
  indexFile : Option String
  config : List String
  deriving DecidableEq

structure Input where
  args : GitArgs
  snapshot : Except SnapshotError Snapshot
  location : Location
  resolved : Option Resolved
  env : GitEnv
  dir : String
  probe : Probe
  files : Files

/-- A call that runs: where in the bound worktree, after which snapshot, with which line. -/
structure Run where
  route : Option String
  snapshot : Option String
  note : Option String
  deriving DecidableEq

/-- Run as typed. -/
def pass : Run := ⟨none, none, none⟩

def Input.binding (i : Input) : Option Binding :=
  match i.snapshot with
  | .ok s => s.binding
  | .error _ => none

def Input.named (i : Input) : Bool := i.args.gitDir.isSome || i.args.workTree.isSome

def stayHint : Option Binding → String
  | some (.work _ branch worktree) => s!"stay on {branch} in {worktree}. To read another branch without switching: git log <branch>, git show <branch>:<path>, git diff <branch>...HEAD. For other work: agend task create \"<title>\""
  | some (.review _ head _) => s!"this is a review of {head}; inspect with git log / git show / git diff, then run: agend review approve  or  agend review changes \"<what to fix>\""
  | none => "run `agend status` to see your assignment"

def refuseStash (binding : Option Binding) : Refusal :=
  let on := match binding.bind Binding.branch with
    | some b => " " ++ b
    | none => ""
  ⟨"stash_shared", "agents do not write git stash: refs/stash is one list shared by the canonical checkout and every worktree, so stash pop / drop / clear take or destroy someone else's work",
    s!"save your work as a commit on your own branch{on} instead: git add -A && git commit -m \"wip: <what>\" (nothing is lost: one task, one branch). Reading still works: git stash list, git stash show"⟩

def refuseWorktree (rest : List String) (binding : Option Binding) : Refusal :=
  let what := (firstPositional rest).getD ""
  ⟨"worktree_managed", s!"`git worktree {what}` is refused: only the daemon creates and removes worktrees",
    match binding with
    | some b => s!"work in your bound worktree: cd {b.worktree}; for separate work create a task: agend task create \"<title>\""
    | none => "run `agend status`; the daemon creates your worktree when it assigns you a task"⟩

def refuseNoBinding (sub : String) (err : SnapshotError) : Refusal :=
  ⟨"no_binding", s!"`git {sub}` changes the repo, which needs a valid binding: {err.display}",
    match err with
    | .notAnAgent => "this git is the agend agent shim; agents get AGEND_HOME and AGEND_INSTANCE from their holder. Humans: use the git outside the agent PATH (e.g. /usr/bin/git)"
    | .unusable _ => "run `agend status` (the daemon rewrites the snapshot). Until then read-only git commands run only inside a checkout: they are not routed to your worktree, so from your workspace use git -C <your worktree> status"⟩

def refuseUnbound (sub : String) (location : Location) (dir : String) : Refusal :=
  let next := "run `agend status` to see your assignment; the daemon gives you a worktree when it assigns a task. To start new work: agend task create \"<title>\""
  if location = .canonical then
    ⟨"canonical_checkout", s!"`git {sub}` would change the canonical checkout {dir} and you have no task bound; agents never change the canonical checkout", next⟩
  else ⟨"unbound", s!"`git {sub}` changes the repo but you have no task bound", next⟩

def refuseSwitch (sub target : String) (b : Binding) (protectedRefs : List String) : Refusal :=
  let bound := b.branch.getD "a detached review head"
  let shown := if isProtected protectedRefs ("refs/heads/" ++ target) then
      s!" ({target} is protected: only the daemon changes it)"
    else ""
  let more := if sub = "checkout" then
      ". To restore a file instead: git checkout -- <path>  or  git restore <path>"
    else ""
  ⟨"branch_switch", s!"`git {sub} {target}` would leave your branch: you are bound to {bound}{shown}",
    stayHint (some b) ++ more⟩

def refuseCopyOrRename (flag : String) (b : Binding) : Refusal :=
  let ns := b.namespace_.getD "agend/<task-id>/"
  ⟨"branch_copy", s!"`git branch {flag}` copies or renames a branch outside git's ref transaction, so the agend hook cannot check the new name",
    s!"create the new branch instead (the hook checks it): git branch {ns}<name> <old>; if <old> is your own {ns} side branch, then delete it: git branch -D <old>"⟩

/-- The agend hooks must run. -/
def checkHooksKept (sub : String) (rest : List String) (i : Input) : Except Refusal Unit := do
  require (¬ (i.args.config ++ i.env.config).any
      (fun v => contains (toAsciiLowercase v) "core.hookspath") = true)
    ⟨"hooks_skipped", s!"setting core.hooksPath for `git {sub}` would skip the agend git hooks that guard protected refs", "drop the -c / --config-env / GIT_CONFIG_* core.hooksPath setting; your project's own hooks still run (the agend hooks chain to them)"⟩
  require (¬ (sub = "push" ∧ (options rest).any (long · "--no-verify") = true))
    ⟨"hooks_skipped", "`git push --no-verify` would skip the agend pre-push hook", "push without --no-verify: git push origin HEAD:refs/heads/<your branch>"⟩

/-- The directory of a routed call: the caller's own, inside the bound worktree, in no other
repository. -/
def target (i : Input) (wt : String) : String :=
  (components ((i.resolved.map (·.prefix_)).getD "")).foldl (fun p c => join p (ofComponents [c])) wt

def targetOk (i : Input) (wt : String) : Bool :=
  (components ((i.resolved.map (·.prefix_)).getD "")).all (fun
    | .normal _ => true
    | _ => false) &&
  i.files.isDir (target i wt) &&
  !((ancestors (target i wt)).takeWhile (!samePath · wt)).any
    (fun a => i.files.present (join a ".git")) &&
  match i.files.canonicalize (target i wt), i.files.canonicalize wt with
  | some t, some w => isUnder t w
  | _, _ => false

def routeDir (sub : String) (i : Input) (b : Binding) : Except Refusal String :=
  let wt := b.worktree
  let shown := (i.resolved.map (·.prefix_)).getD ""
  if i.location = .otherWorktree then
    let there := (i.resolved.map Resolved.root).getD i.dir
    let go := if targetOk i wt then target i wt else wt
    .error ⟨"other_worktree", s!"you ran `git {sub}` in {i.dir}, which is in another worktree of the team repo ({there}), not in your bound worktree {wt}",
      s!"cd {go} and run it there"⟩
  else if targetOk i wt then .ok (target i wt)
  else .error ⟨"route_dir_missing", s!"you ran `git {sub}` in {i.dir}, outside your bound worktree; the same directory ({shown}) does not exist in your bound worktree {wt} (or is a submodule or nested repo there), so the shim will not run it there (relative paths would mean something else)",
    s!"cd {wt} (your bound worktree), then cd to the directory you meant and run it there"⟩

def routedNote (route dir : String) : String :=
  s!"agend-shim: running in your bound worktree {route} (you ran git in {dir})"

/-- A write must act on the bound worktree. -/
def checkWorkTree (sub : String) (i : Input) (b : Binding) : Except Refusal Unit :=
  let wt := b.worktree
  let refuse (reason : String) : Refusal := ⟨"work_tree_retarget", reason,
    s!"drop --git-dir / --work-tree, unset GIT_DIR GIT_WORK_TREE GIT_INDEX_FILE, and run `git {sub} ...` in {wt}"⟩
  let other (subject : String) : Refusal :=
    refuse s!"{subject} is not your bound worktree {wt}; `git {sub}` would change another checkout"
  if i.location ≠ .worktree then
    match i.named, i.resolved with
    | false, _ => .ok ()
    | true, some r => .error (refuse s!"--git-dir / --work-tree point `git {sub}` at {r.root}, which is not your bound worktree {wt}")
    | true, none => .error (refuse s!"with --git-dir / --work-tree as given, git finds no repository for `git {sub}`; your bound worktree is {wt}")
  else
    match i.resolved with
    | none => .error (refuse s!"git would run `git {sub}` without a work tree, not in your bound worktree {wt}")
    | some r =>
      match r.workTree with
      | none => .error (refuse s!"git would run `git {sub}` without a work tree, not in your bound worktree {wt}")
      | some p => do
        require (i.files.canonicalize wt = some p) (other s!"the work tree git would use ({p})")
        match i.env.indexFile with
        | none => return ()
        | some f =>
          require (((parent f).bind i.files.canonicalize).any (isUnder · r.gitDir) = true)
            (other s!"the index file {f}")

/-- Whether a switch to `target` stays on the bound branch. -/
def stays (target : String) (b : Binding) (probe : Probe) : Bool :=
  if target = "HEAD" ∨ target = "@" then true
  else match b.branch with
    | none => false
    | some branch =>
      match previous target with
      | some rev => (probe.git ["rev-parse", "--symbolic-full-name", rev]).any
          fun f => stripPrefix "refs/heads/" f = some branch
      | none => target = branch

/-- The target named when `checkout` or `switch` would leave the bound branch. -/
def leavesBranch (sub : String) (rest : List String) (b : Binding) (probe : Probe) :
    Option String :=
  let detaches (longs : List String) (letters : String) :=
    (options rest).find? fun a => longs.any (long a) || short a letters
  let pos := (options rest).filter fun a => !startsWith "-" a || a = "-"
  let leaves (target : String) : Option String := if stays target b probe then none else some target
  match sub with
  | "checkout" =>
    match detaches ["--detach", "--orphan"] "bBd" with
    | some flag => some flag
    | none =>
      match pos with
      | [] => none
      | target :: more =>
        let dashdash := rest.contains "--"
        let pathsAfter := dashdash && (options rest).length + 1 < rest.length
        if pathsAfter ∨ more ≠ [] then none
        else
          let commit := target ++ "^\x7bcommit\x7d"
          let namesCommit := (previous target).isSome ||
            (probe.git ["rev-parse", "--verify", "-q", commit]).isSome
          if dashdash = false ∧ namesCommit = false then none else leaves target
  | "switch" =>
    match detaches ["--detach", "--orphan", "--create", "--force-create"] "cCd" with
    | some flag => some flag
    | none =>
      match pos with
      | [] => none
      | target :: _ => leaves target
  | _ => none

/-- Writes that git makes outside a ref transaction. -/
def untrackedRefWrite (sub : String) (rest : List String) (b : Binding) : Option Refusal :=
  let shown := " ".intercalate rest
  let refusal (next : String) : Refusal := ⟨"ref_outside_hook", s!"`git {sub} {shown}` changes refs outside git's ref transaction, so the agend hook cannot check it", next⟩
  match sub with
  | "symbolic-ref" =>
    let flags := rest.filter (startsWith "-")
    let names := rest.filter (!startsWith "-" ·)
    if names.length = 1 ∧
        flags.all (· ∈ ["-q", "--quiet", "--short", "--recurse", "--no-recurse"]) = true then none
    else
      let ns := b.namespace_.getD "agend/<task-id>/"
      some (refusal s!"read it with: git symbolic-ref <name>; to start a branch: git branch {ns}<name> <commit>")
  | "reflog" =>
    if firstPositional rest = some "expire" ∨ firstPositional rest = some "delete" then
      some (refusal "read it with: git reflog show <ref>; agents do not delete or expire reflog entries")
    else none
  | _ => none

/-- Whether git config sets a key true in the worktree. -/
def configTrue (probe : Probe) (key : String) : Bool :=
  probe.git ["config", "--get", "--type=bool", key] = some "true"

/-- Whether submodules would be reset too. -/
def recursing (sub : String) (rest : List String) (i : Input) (b : Binding) : Bool :=
  let flag (l : String) := (options rest).any (long · l)
  let key := "submodule.recurse"
  sub ∈ ["reset", "checkout", "restore", "switch"] && (destructive sub rest).isSome &&
    i.files.isFile (join b.worktree ".gitmodules") &&
    (flag "--recurse-submodules" ||
      !flag "--no-recurse-submodules" &&
        (i.args.config.any (fun v => contains (toAsciiLowercase v) key) || configTrue i.probe key))

/-- What a snapshot cannot undo. -/
def unsnapshotted (sub : String) (rest : List String) (i : Input) (b : Binding) : Option Refusal :=
  let opts := options rest
  let shorts := ((opts.filterMap (stripPrefix "-")).map (before 'e')).filter (!startsWith "-" ·)
  let letters := shorts.flatMap (·.toList)
  let forces := letters.count 'f' + (opts.filter (long · "--force")).length
  let first := (firstPositional rest).getD ""
  let prune := opts.any fun a => a = "-p" || long a "--prune"
  if sub = "stash" then some (refuseStash (some b))
  else if sub = "remote" ∧ (first ∈ ["add", "remove", "rm", "rename", "set-url", "set-head",
      "set-branches", "prune"] ∨ first = "update" ∧ prune = true) then
    some ⟨"remote_write", "this `git remote` form changes the remotes in the repo config that the canonical checkout and every worktree share; a snapshot does not undo it", "agents do not change remotes; read them with: git remote -v, git remote get-url <name> or git remote show <name>"⟩
  else if sub = "submodule" ∧ first = "foreach" then
    some ⟨"submodule_foreach", "git runs the `submodule foreach` command with its own git, past the agend shim, so a `reset --hard` there loses uncommitted work in the submodules without a snapshot", "run it in each submodule yourself (snapshotted): git -C <path> <command>; list the paths with: git submodule status"⟩
  else if recursing sub rest i b then
    some ⟨"submodule_recurse", "recursing into submodules (--recurse-submodules, or submodule.recurse set) discards uncommitted work inside them, which the agend snapshot keeps only as a gitlink", "commit inside the submodule first (cd <submodule> && git add -A && git commit -m \"wip: <what>\"), or add --no-recurse-submodules"⟩
  else if sub = "clean" ∧ (letters.any (· ∈ ['x', 'X']) = true ∨ 1 < forces) then
    some ⟨"clean_unsnapshotted", "`git clean -x|-X` deletes ignored files (e.g. .env) and `git clean -ff` deletes nested git repos with their local commits; the agend snapshot keeps neither (a nested repo only as a gitlink)", "run `git clean -fd` (snapshotted first; ignored files and nested repos stay), or delete the specific paths: rm -r <path>"⟩
  else none

/-- A conflicting autostash would be stored in `refs/stash`. -/
def autostash (sub : String) (rest : List String) (i : Input) : Option Refusal :=
  let keys := match sub with
    | "rebase" => ["rebase.autostash"]
    | "merge" => ["merge.autostash"]
    | "pull" => ["rebase.autostash", "merge.autostash"]
    | _ => []
  let skip := ["--no-autostash", "--continue", "--abort", "--skip", "--quit", "--edit-todo",
    "--show-current-patch"]
  let on := (options rest).any (long · "--autostash") ||
    (i.args.config ++ i.env.config).any
      (fun v => keys.any fun k => contains (toAsciiLowercase v) k) ||
    !(options rest).any (· ∈ skip) && keys.any (configTrue i.probe)
  if keys ≠ [] ∧ on = true then
    some ⟨"autostash", "autostash (`--autostash`, or rebase.autoStash / merge.autoStash set with -c, GIT_CONFIG_* or in your git config) puts your changes in git stash, which agents do not write (refs/stash is shared with the canonical checkout): on a conflict git fails with `cannot store` and leaves conflict markers",
      s!"commit your changes on your bound branch: git add -A && git commit -m \"wip: <what>\", then run `git {sub} --no-autostash ...` again (without --autostash or -c ...autoStash)"⟩
  else none

/-- A foreign repository is the agent's own business, unless it is the team's or a clone of it. -/
def foreign (i : Input) (sub : String) (rest : List String) : Except Refusal Run :=
  if kind sub rest = some .read then .ok pass
  else do
    let next := match i.binding with
      | some b => s!"change the team repo only from your bound worktree: cd {b.worktree} and run it there"
      | none => "run `agend status`; the daemon gives you a worktree when it assigns a task"
    let repo := (i.resolved.map Resolved.root).getD i.dir
    require (¬ i.probe.isTeamRepo = true)
      ⟨"team_clone", s!"`git {sub}` in {repo}: this repo is the team's remote or a clone of the team repo, which agents change only through their bound worktree", next⟩
    let dests := rest.filter (!startsWith "-" ·) ++ rest.filterMap (stripPrefix "--repo=")
    match if sub = "push" then dests.find? i.probe.isTeamRemote else none with
    | some dest => throw ⟨"team_remote", s!"pushing to {dest} is refused: it is the team repo", next⟩
    | none => return ⟨none, if i.location = .nested then destructive sub rest else none, none⟩

/-- Reads run in the bound worktree from the canonical checkout and the workspace. -/
def routeRead (i : Input) (binding : Option Binding) : Except Refusal Run :=
  match binding with
  | none => .ok pass
  | some b =>
    if ¬ (i.location = .canonical ∨ i.location = .workspace) ∨ i.env.retargets = true ∨
        ¬ i.files.isDir b.worktree = true then .ok pass
    else do
      let route ← routeDir (i.args.sub.getD "") i b
      return ⟨some route, none, some (routedNote route i.dir)⟩

/-- Where there is no repository git would fail. -/
def refuseNoRepo (sub : String) (i : Input) (wt : String) : Refusal :=
  let what := if i.files.isDir i.dir then "not a git repository" else s!"cannot change to '{i.dir}'"
  let place := if i.args.retargetIndexes ≠ [] ∨ i.env.retargets = true then
      "where you pointed it with -C, --git-dir, --work-tree, GIT_DIR or GIT_WORK_TREE"
    else s!"in {i.dir}, which is in no repo and is not your workspace"
  ⟨"no_repo_there", s!"git would fail ({what}) {place}, so the shim will not run `git {sub}` in your bound worktree instead",
    s!"cd {wt} and run it there (fix or drop any -C, --git-dir, --work-tree, GIT_*)"⟩

def refusedBy (r : Option Refusal) : Except Refusal Unit :=
  match r with
  | some r => .error r
  | none => .ok ()

/-- What the hooks cannot see of the call itself. -/
def checkCall (sub : String) (rest : List String) (i : Input) (b : Binding)
    (protectedRefs : List String) : Except Refusal Unit := do
  refusedBy ((leavesBranch sub rest b i.probe).map (refuseSwitch sub · b protectedRefs))
  refusedBy ((copyOrRename sub rest).map (refuseCopyOrRename · b))
  refusedBy (untrackedRefWrite sub rest b)
  refusedBy (unsnapshotted sub rest i b)
  refusedBy (autostash sub rest i)

/-- Nowhere else than in the bound worktree. -/
def routeWrite (sub : String) (i : Input) (b : Binding) : Except Refusal (Option String) := do
  let wt := b.worktree
  require (¬ i.location = .noRepo) (refuseNoRepo sub i wt)
  require (¬ (i.location ≠ .worktree ∧ i.resolved.any (·.workTree.isNone) = true ∧ i.named = false))
    ⟨"route_dir_missing", s!"you ran `git {sub}` in {i.dir}, inside a git directory (git sees no work tree there), so the shim will not run it in your bound worktree",
      s!"cd {wt} and run it there"⟩
  let route ← if i.location = .worktree then pure none else (routeDir sub i b).map some
  require (¬ (route.isSome = true ∧ i.env.retargets = true))
    ⟨"git_env_retarget", "GIT_DIR / GIT_WORK_TREE / GIT_COMMON_DIR / GIT_INDEX_FILE make git act outside your bound worktree",
      s!"unset GIT_DIR GIT_WORK_TREE GIT_COMMON_DIR GIT_INDEX_FILE and run plain `git {sub} ...`; it runs in {wt}"⟩
  return route

def write (i : Input) (sub : String) (rest : List String) : Except Refusal Run := do
  let snapshot ← i.snapshot.mapError (refuseNoBinding sub)
  let b ← okOr snapshot.binding (refuseUnbound sub i.location i.dir)
  let wt := b.worktree
  require (i.files.isDir wt = true)
    ⟨"worktree_missing", s!"your bound worktree {wt} does not exist", "run `agend status`; the daemon re-creates or re-assigns the worktree"⟩
  let route ← routeWrite sub i b
  checkWorkTree sub i b
  require (i.probe.hooksInstalled = true)
    ⟨"hooks_missing", s!"your bound worktree {wt} has no agend git hooks, which guard protected refs, so `git {sub}` is refused", "run `agend status`; the daemon installs the hooks when it binds your worktree"⟩
  checkCall sub rest i b snapshot.protectedRefs
  return ⟨route, destructive sub rest, route.map (routedNote · i.dir)⟩

def classify (i : Input) : Except Refusal Run :=
  match i.args.sub with
  | none => .ok pass
  | some sub =>
    let rest := i.args.rest
    if i.args.infoOnly then .ok pass
    else if i.location = .foreign ∨ i.location = .nested then foreign i sub rest
    else do
      checkHooksKept sub rest i
      require (¬ (sub = "worktree" ∧ firstPositional rest ≠ some "list"))
        (refuseWorktree rest i.binding)
      match kind sub rest with
      | none => throw ⟨"unknown_command", s!"`git {sub}` is not a git command the agend shim knows (aliases and external git-* commands are not allowed for agents)", "run the underlying built-in git command directly; list them with: git help -a"⟩
      | some .read => routeRead i i.binding
      | some .write => write i sub rest

end Agend.Shim
