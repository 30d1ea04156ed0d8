import Mathlib.Data.List.Infix

/-! The words of a git command line. -/
namespace Agend.Shim

def startsWith (p s : String) : Bool := p.toList.isPrefixOf s.toList

/-- The text after a prefix. -/
def stripPrefix (p s : String) : Option String :=
  if startsWith p s then some (String.ofList (s.toList.drop p.toList.length)) else none

def contains (s p : String) : Bool := s.toList.tails.any p.toList.isPrefixOf

/-- The text before the first `c`. -/
def before (c : Char) (s : String) : String := String.ofList (s.toList.takeWhile (· ≠ c))

def toAsciiLowercase (s : String) : String := String.ofList (s.toList.map Char.toLower)

/-- A git argv split into leading global options and the subcommand. -/
structure GitArgs where
  subIndex : Nat
  sub : Option String
  rest : List String
  chdirs : List String
  gitDir : Option String
  workTree : Option String
  config : List String
  infoOnly : Bool
  retargetIndexes : List Nat
  deriving DecidableEq

def infoGlobals : List String :=
  ["--version", "-v", "--help", "-h", "--html-path", "--man-path", "--info-path", "--exec-path"]

def flagGlobals : List String :=
  ["-p", "--paginate", "-P", "--no-pager", "--no-replace-objects", "--literal-pathspecs",
    "--glob-pathspecs", "--noglob-pathspecs", "--icase-pathspecs", "--no-optional-locks",
    "--no-lazy-fetch", "--no-advice"]

def valueGlobals : List String := ["--namespace", "--super-prefix", "--attr-source"]

/-- What a word is among the global options; `stop` is the subcommand, also for an option that is
not known. -/
inductive Word where
  | info
  | flag
  | chdir
  | gitDir
  | workTree
  | gitDirIs (v : String)
  | workTreeIs (v : String)
  | bare
  | config
  | configIs (v : String)
  | value
  | valueIs
  | stop
  deriving DecidableEq

def word (a : String) : Word :=
  if ¬ startsWith "-" a then .stop
  else if a ∈ infoGlobals then .info
  else if a ∈ flagGlobals then .flag
  else if a = "-C" then .chdir
  else if a = "--git-dir" then .gitDir
  else if a = "--work-tree" then .workTree
  else if let some v := stripPrefix "--git-dir=" a then .gitDirIs v
  else if let some v := stripPrefix "--work-tree=" a then .workTreeIs v
  else if a = "--bare" then .bare
  else if a = "-c" ∨ a = "--config-env" then .config
  else if let some v := stripPrefix "--config-env=" a then .configIs v
  else if a ∈ valueGlobals then .value
  else if (valueGlobals ++ ["--exec-path", "--list-cmds"]).any fun v => startsWith (v ++ "=") a then
    .valueIs
  else .stop

namespace GitArgs

variable (g : GitArgs)

def retarget (indexes : List Nat) : GitArgs :=
  { g with retargetIndexes := g.retargetIndexes ++ indexes }

/-- The globals end at index `i`. -/
def stop (i : Nat) (words : List String) : GitArgs :=
  { g with
    subIndex := i
    sub := words.head?
    rest := words.tail }

end GitArgs

/-- The loop of `parse`, from index `i` on; an option without its value ends the globals. -/
def parseFrom (g : GitArgs) (i : Nat) : List String → GitArgs
  | [] => g.stop i []
  | a :: l =>
    match word a, l with
    | .info, l => parseFrom { g with infoOnly := true } (i + 1) l
    | .flag, l | .valueIs, l => parseFrom g (i + 1) l
    | .chdir, v :: l =>
      parseFrom ({ g with chdirs := g.chdirs ++ [v] }.retarget [i, i + 1]) (i + 2) l
    | .gitDir, v :: l => parseFrom ({ g with gitDir := some v }.retarget [i, i + 1]) (i + 2) l
    | .workTree, v :: l => parseFrom ({ g with workTree := some v }.retarget [i, i + 1]) (i + 2) l
    | .gitDirIs v, l => parseFrom ({ g with gitDir := some v }.retarget [i]) (i + 1) l
    | .workTreeIs v, l => parseFrom ({ g with workTree := some v }.retarget [i]) (i + 1) l
    | .bare, l => parseFrom ({ g with gitDir := some "." }.retarget [i]) (i + 1) l
    | .config, v :: l => parseFrom { g with config := g.config ++ [v] } (i + 2) l
    | .configIs v, l => parseFrom { g with config := g.config ++ [v] } (i + 1) l
    | .value, _ :: l => parseFrom g (i + 2) l
    | .chdir, [] | .gitDir, [] | .workTree, [] | .config, [] | .value, [] => g.stop i [a]
    | .stop, l => g.stop i (a :: l)

def parse (args : List String) : GitArgs :=
  parseFrom ⟨0, none, [], [], none, none, [], false, []⟩ 0 args

/-- Whether the decision depends on where the call acts. -/
def needsLocation (args : GitArgs) : Bool :=
  !args.infoOnly && !(args.sub = none || args.sub = some "init" || args.sub = some "clone")

def firstPositional (rest : List String) : Option String := rest.find? (!startsWith "-" ·)

/-- Arguments before `--`. -/
def options (rest : List String) : List String := rest.takeWhile (· ≠ "--")

/-- The long option `l`, or an abbreviation of it; `--force` never abbreviates. -/
def long (arg l : String) : Bool :=
  let name := before '=' arg
  name = l || (3 ≤ name.utf8ByteSize && startsWith name l && name ≠ "--force")

/-- A cluster of short options with one of `letters`. -/
def short (arg letters : String) : Bool :=
  1 < arg.utf8ByteSize && startsWith "-" arg && !startsWith "--" arg &&
    (arg.toList.drop 1).any (· ∈ letters.toList)

inductive Kind where
  | read
  | write
  deriving DecidableEq

def readCommands : List String :=
  ["init", "clone", "status", "log", "diff", "show", "blame", "annotate", "ls-files", "ls-tree",
    "rev-parse", "rev-list", "cat-file", "describe", "shortlog", "grep", "for-each-ref", "show-ref",
    "name-rev", "merge-base", "merge-tree", "diff-tree", "diff-index", "diff-files", "difftool",
    "count-objects", "check-ignore", "check-attr", "check-mailmap", "check-ref-format", "var",
    "help", "version", "whatchanged", "format-patch", "range-diff", "cherry", "fsck",
    "verify-commit", "verify-tag", "verify-pack", "archive", "show-branch", "patch-id", "ls-remote",
    "hash-object", "request-pull", "interpret-trailers", "stripspace", "column",
    "get-tar-commit-id"]

def writeCommands : List String :=
  ["add", "rm", "mv", "commit", "reset", "restore", "checkout", "switch", "merge", "rebase",
    "cherry-pick", "revert", "pull", "push", "fetch", "am", "apply", "clean", "gc", "prune",
    "repack", "pack-refs", "maintenance", "update-index", "read-tree", "write-tree", "commit-tree",
    "mktree", "mktag", "update-ref", "symbolic-ref", "bisect", "lfs", "rerere", "config",
    "filter-branch", "fast-import", "replace", "unpack-objects"]

/-- Read or write, for the mixed commands by the first positional; none for an unknown command. -/
def kind (sub : String) (rest : List String) : Option Kind :=
  let of (read : Bool) : Option Kind := some (if read then .read else .write)
  let first := firstPositional rest
  if sub ∈ readCommands then some .read
  else match sub with
    | "branch" | "tag" => of first.isNone
    | "stash" => of (first = some "list" || first = some "show")
    | "remote" =>
      if first = some "prune" then
        of (!(options rest).any (startsWith "--no-") &&
          (options rest).any fun a => a = "-n" || long a "--dry-run")
      else of (first = none || first = some "show" || first = some "get-url")
    | "reflog" => of (!(first = some "expire" || first = some "delete"))
    | "submodule" => of (first = none || first = some "status" || first = some "summary")
    | "notes" => of (first = none || first = some "list" || first = some "show")
    | "sparse-checkout" | "worktree" => of (first = some "list")
    | s => if s ∈ writeCommands then some .write else none

def snapshotOps : List String :=
  ["reset", "clean", "checkout", "restore", "switch", "rm", "mv", "merge", "rebase", "pull",
    "cherry-pick", "revert", "am"]

/-- Whether the arguments let the operation lose what is not committed. -/
def discards (sub : String) (rest : List String) : Bool :=
  let has (l : String) := (options rest).any (long · l)
  let hasShort (c : String) := (options rest).any (short · c)
  match sub with
  | "reset" => has "--hard" || has "--merge" || has "--keep"
  | "restore" => !(has "--staged" || hasShort "S") || has "--worktree" || hasShort "W"
  | "switch" => has "--force" || has "--discard-changes" || hasShort "f"
  | "rm" | "mv" => (has "--force" || hasShort "f") && !has "--cached" && !has "--dry-run" &&
    !(options rest).any (· = "-n")
  | _ => true

/-- The name of the destructive operation to snapshot before. -/
def destructive (sub : String) (rest : List String) : Option String :=
  if sub ∈ snapshotOps ∧ discards sub rest = true then some sub else none

/-- The option of `branch` that copies or renames; a cluster ends at `-u` and `-t`. -/
def copyOrRename (sub : String) (rest : List String) : Option String :=
  if sub ≠ "branch" then none
  else (options rest).find? fun a =>
    match stripPrefix "--" a with
    | some n =>
      let n := before '=' n
      n ≠ "" && (startsWith n "move" || startsWith n "copy")
    | none => startsWith "-" a &&
      ((a.toList.drop 1).takeWhile (· ∉ ['u', 't'])).any (· ∈ ['c', 'C', 'm', 'M'])

/-- `-` and `@{-n}`, a branch checked out before, as a revision. -/
def previous (target : String) : Option String :=
  let digits : Option (List Char) :=
    if target = "-" then some ['1']
    else match stripPrefix "@\x7b-" target with
      | none => none
      | some n => if n.toList.getLast? = some '\x7d' then some n.toList.dropLast else none
  match digits with
  | none => none
  | some n =>
    if n ≠ [] ∧ n.all (fun c => '0' ≤ c && c ≤ '9') = true then
      some ("@\x7b-" ++ String.ofList n ++ "\x7d")
    else none

end Agend.Shim
