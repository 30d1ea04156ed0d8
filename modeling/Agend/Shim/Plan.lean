import Agend.Shim.Classify

/-! The plan of a git call: where it acts, what is decided, and the command that then runs. -/
namespace Agend.Shim

open Library Library.Path

/-- What the shim reads from its environment. -/
structure Ctx where
  home : Option String
  instanceId : Option String
  bypass : Bool
  depth : Nat
  cwd : Option String
  gitDir : Option String
  gitWorkTree : Option String
  gitCommonDir : Option String
  gitIndexFile : Option String
  gitCeilingDirs : Option String
  configEnv : List String
  deriving DecidableEq

namespace Ctx

variable (ctx : Ctx)

def gitEnvNamesRepo : Bool :=
  ctx.gitDir.isSome || ctx.gitWorkTree.isSome || ctx.gitCommonDir.isSome

def gitEnvRetargets : Bool := ctx.gitEnvNamesRepo || ctx.gitIndexFile.isSome

end Ctx

def maxDepth : Nat := 8

/-- A question to git: the words after `git`, and the variables that choose a repository. -/
structure Question where
  words : List String
  gitDir : Option String
  gitWorkTree : Option String
  gitCommonDir : Option String
  gitIndexFile : Option String
  ceilings : Option String
  deriving DecidableEq

structure Output where
  success : Bool
  stdout : String
  deriving DecidableEq

/-- What a snapshot leaves. -/
structure Saved where
  id : String
  reference : String
  previousHead : Option String
  deriving DecidableEq

def Saved.report (s : Saved) (op : String) : List String :=
  let undo := s!"git restore --source={s.reference} -- :/"
  [s!"agend-shim: snapshot {s.id} saved before `git {op}` ({s.reference})",
    match s.previousHead with
    | some head => s!"agend-shim: to undo: git reset --keep {head} && {undo}"
    | none => s!"agend-shim: to undo: {undo}"]

/-- What the shim is told: by the file system, by git, and by the file with the binding. The team's
repositories matter only outside of the bound worktree. -/
structure World where
  findReal : Option String
  files : Files
  git : Question → Option Output
  snapshot : Except SnapshotError Snapshot
  isTeamRepo : Bool
  isTeamRemote : String → Bool
  take : String → Except String Saved

inductive Action where
  | exec (program : String) (words : List String)
  | refuse (r : Refusal)
  | notFound
  deriving DecidableEq

structure Outcome where
  messages : List String
  action : Action
  deriving DecidableEq

/-- `-C` and the directory, then the words without those that retarget git. -/
def routedArgs (args : List String) (worktree : String) (drop : List Nat) : List String :=
  "-C" :: worktree :: (args.zipIdx.filter fun (_, i) => i ∉ drop).map Prod.fst

def revParse : List String := ["rev-parse", "--absolute-git-dir", "--git-common-dir"]

/-- Output lines, empty ones kept. -/
def linesKeepingEmpty (stdout : String) : List String :=
  let body := if stdout.toList.getLast? = some '\n' then stdout.toList.dropLast else stdout.toList
  if stdout = "" then [] else (body.splitOn '\n').map String.ofList

def shimLoop (tool : String) : Refusal :=
  ⟨"shim_loop", s!"the {tool} shim is calling itself (PATH loop)",
    s!"put the real {tool} on PATH, or report this: agend ask \"shim loop for {tool}\""⟩

/-- The stderr lines for the agent. -/
def Refusal.render (r : Refusal) (command : String) : List String :=
  [s!"agend-shim: refused `{command}`", s!"agend-shim: why: {r.reason}",
    s!"agend-shim: next step: {r.next}"]

namespace World

variable (w : World) (ctx : Ctx)

/-- Git without the caller's retargeting; its output if it succeeded. -/
def runClean (words : List String) : Option String :=
  match w.git ⟨words, none, none, none, none, ctx.gitCeilingDirs⟩ with
  | some out => if out.success then some out.stdout else none
  | none => none

/-- The git dir and the common dir of a checkout. -/
def dirsOf (dir : String) : Option (String × String) := do
  let out ← w.runClean ctx (["-C", dir] ++ revParse)
  match linesKeepingEmpty out with
  | [g, c] => return (← w.files.canonicalize (join dir g), ← w.files.canonicalize (join dir c))
  | _ => none

/-- Discovery stops at the home of agend for a call from inside it. -/
def ceilings (dir : String) (namesGitDir : Bool) : Option String :=
  let home := ctx.home.bind w.files.canonicalize
  let inside := home.any fun h => (w.files.canonicalize dir).any (isUnder · h)
  match home, inside, namesGitDir with
  | some home, true, false =>
    if ':' ∈ home.toList then ctx.gitCeilingDirs
    else some (home ++ ":" ++ ctx.gitCeilingDirs.getD "")
  | _, _, _ => ctx.gitCeilingDirs

/-- Where git says that the call acts. -/
def resolve (globals : List String) (dir : String) (namesGitDir : Bool) : Option Resolved :=
  match w.git ⟨globals ++ revParse ++ ["--show-toplevel", "--show-prefix"], ctx.gitDir,
      ctx.gitWorkTree, ctx.gitCommonDir, ctx.gitIndexFile, w.ceilings ctx dir namesGitDir⟩ with
  | some out => Resolved.fromLines w.files (linesKeepingEmpty out.stdout) dir
  | none => none

/-- Only the agent's own workspace stands for the bound worktree. -/
def inWorkspace (dir : String) : Bool :=
  match ctx.home, w.snapshot with
  | some home, .ok s =>
    match w.files.canonicalize (join (join home "workspace") s.instanceId),
        w.files.canonicalize dir with
    | some ws, some d => isUnder d ws
    | _, _ => false
  | _, _ => false

def binding : Option Binding :=
  match w.snapshot with
  | .ok s => s.binding
  | .error _ => none

def sourceRepo : Option String :=
  match w.snapshot with
  | .ok s => s.sourceRepo
  | .error _ => none

def anchors : Anchors where
  worktree := w.binding.bind fun b => w.files.canonicalize b.worktree
  sourceRepo := w.sourceRepo.bind w.files.canonicalize
  worktreeDirs := (w.binding.bind fun b => w.files.canonicalize b.worktree).bind (w.dirsOf ctx)
  teamCommonDir := (w.sourceRepo.bind (w.dirsOf ctx)).map Prod.snd

/-- The directory git runs in, after `-C`. -/
def dir (args : List String) (cwd : String) : String :=
  (parse args).chdirs.foldl join cwd

def namesGitDir (args : List String) : Bool := (parse args).gitDir.isSome || ctx.gitDir.isSome

/-- Whether the caller chose the git dir, the work tree or the common dir. -/
def explicit (args : List String) : Bool :=
  namesGitDir ctx args || (parse args).workTree.isSome || ctx.gitEnvNamesRepo

/-- Git's answer for the call. -/
def resolved (args : List String) (cwd : String) : Option Resolved :=
  let parsed := parse args
  if needsLocation parsed then
    w.resolve ctx (args.take parsed.subIndex) (dir args cwd) (namesGitDir ctx args)
  else none

def location (args : List String) (cwd : String) : Location :=
  let parsed := parse args
  let plain := parsed.retargetIndexes = [] ∧ ctx.gitEnvRetargets = false
  if needsLocation parsed = false then .unknown
  else match w.resolved ctx args cwd with
    | none => if plain ∧ w.inWorkspace ctx (dir args cwd) = true then .workspace else .noRepo
    | some r =>
      match w.snapshot with
      | .error _ => .unknown
      | .ok _ => locate r (explicit ctx args) (w.anchors ctx)

/-- The file that marks a git dir with the agend hooks. -/
def marker (gitDir : String) : String := join gitDir "agend-hooks-installed"

/-- In the bound worktree git already named its git dir. -/
def hooksInstalled (args : List String) (cwd : String) : Bool :=
  let gitDir :=
    match w.resolved ctx args cwd, w.location ctx args cwd with
    | some r, .worktree => some r.gitDir
    | _, _ => (w.anchors ctx).worktreeDirs.map Prod.fst
  gitDir.any fun g => w.files.isFile (marker g)

def probeGit (words : List String) : Option String :=
  match w.binding with
  | some b =>
    if w.files.isDir b.worktree then (w.runClean ctx (["-C", b.worktree] ++ words)).map trim
    else none
  | none => none

def input (args : List String) (cwd : String) : Input where
  args := parse args
  snapshot := w.snapshot
  location := w.location ctx args cwd
  resolved := w.resolved ctx args cwd
  env := ⟨ctx.gitEnvRetargets, ctx.gitIndexFile.map (join (dir args cwd)), ctx.configEnv⟩
  dir := dir args cwd
  probe := ⟨w.isTeamRepo, w.isTeamRemote, w.probeGit ctx, w.hooksInstalled ctx args cwd⟩
  files := w.files

/-- A deleted working directory stands for nothing, unless it is not used. -/
def workingDir (args : List String) : Option String :=
  let parsed := parse args
  let unused := parsed.chdirs.head?.any isAbsolute || !needsLocation parsed
  ctx.cwd.or (if unused then some "" else none)

def refuse (args : List String) (r : Refusal) : Outcome :=
  ⟨r.render ("git " ++ " ".intercalate args), .refuse r⟩

/-- Takes the snapshot that a decision asks for. -/
def takeSnapshot (args : List String) (cwd : String) (run : Run) : Except Refusal (List String) :=
  match run.snapshot, w.binding with
  | some op, some b =>
    let place := match w.resolved ctx args cwd, w.location ctx args cwd with
      | some r, .nested => r.root
      | _, _ => b.worktree
    match w.take place with
    | .ok saved => .ok (saved.report (" ".intercalate (args.drop (parse args).subIndex)))
    | .error e => .error ⟨"snapshot_failed", s!"could not snapshot your worktree before `git {op}`: {e}", "fix the error above and retry; to run without a snapshot (audited): AGEND_SHIM_BYPASS=1 git ..."⟩
  | _, _ => .ok []

/-- The words that a decision runs. -/
def finalArgs (args : List String) (run : Run) : List String :=
  match run.route with
  | some route => routedArgs args route (parse args).retargetIndexes
  | none => args

def plan (args : List String) : Outcome :=
  match w.findReal with
  | none => ⟨["agend-shim: cannot find the real git on PATH (the shim directory is excluded); install git or fix PATH"], .notFound⟩
  | some real =>
    if ctx.bypass then ⟨[], .exec real args⟩
    else if maxDepth ≤ ctx.depth then refuse args (shimLoop "git")
    else match workingDir ctx args with
      | none =>
        let go := match w.binding with
          | some b => b.worktree
          | none => "a directory that exists"
        refuse args ⟨"cwd_unreadable", "Unable to read current working directory (deleted, e.g. by `cargo clean` or `rm -rf`); git fails the same way, so the shim will not guess where to run", s!"cd {go} and run it again"⟩
      | some cwd =>
        match classify (w.input ctx args cwd) with
        | .error r => refuse args r
        | .ok run =>
          match w.takeSnapshot ctx args cwd run with
          | .error r => refuse args r
          | .ok report => ⟨run.note.toList ++ report, .exec real (finalArgs args run)⟩

end World

end Agend.Shim
