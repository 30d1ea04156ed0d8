import Agend.Library.Path
import Agend.Shim.Args

/-! Where a git call acts, from the answer of git itself. -/
namespace Agend.Shim

open Library.Path

/-- The file system, fixed during a call. -/
structure Files where
  isDir : String → Bool
  isFile : String → Bool
  present : String → Bool
  canonicalize : String → Option String

inductive Location where
  | worktree
  | canonical
  | otherWorktree
  | foreign
  | nested
  | noRepo
  | workspace
  | unknown
  deriving DecidableEq

/-- What git answered for the call, with canonical paths. -/
structure Resolved where
  gitDir : String
  commonDir : String
  workTree : Option String
  prefix_ : String
  deriving DecidableEq

namespace Resolved

/-- From the output lines of `rev-parse`, relative to the directory git runs in. -/
def fromLines (files : Files) (lines : List String) (base : String) : Option Resolved := do
  let canon (p : String) := files.canonicalize (join base p)
  match lines with
  | [g, c] => return ⟨← canon g, ← canon c, none, ""⟩
  | [g, c, w] => return ⟨← canon g, ← canon c, some (← canon w), ""⟩
  | [g, c, w, p] => return ⟨← canon g, ← canon c, some (← canon w), p⟩
  | _ => none

/-- The directory git works from. -/
def root (r : Resolved) : String := r.workTree.getD r.gitDir

end Resolved

/-- What the classification compares against. -/
structure Anchors where
  worktree : Option String
  sourceRepo : Option String
  worktreeDirs : Option (String × String)
  teamCommonDir : Option String
  deriving DecidableEq

/-- Without a git dir, work tree or common dir chosen by the caller, the bound worktree as work tree
is taken for its own git dir. -/
def Anchors.own (a : Anchors) (r : Resolved) (explicit : Bool) : Bool :=
  match a.worktree with
  | none => false
  | some wt =>
    if explicit then a.worktreeDirs = some (r.gitDir, r.commonDir)
    else r.workTree = some wt

def locate (r : Resolved) (explicit : Bool) (a : Anchors) : Location :=
  if a.own r explicit then .worktree
  else if explicit = false ∧ r.workTree.isSome ∧ r.workTree = a.sourceRepo then
    if r.gitDir = r.commonDir then .canonical else .otherWorktree
  else if a.teamCommonDir = some r.commonDir then
    if r.gitDir = r.commonDir then .canonical else .otherWorktree
  else if a.worktree.any (isUnder r.root) then .nested
  else if a.teamCommonDir.any (isUnder r.gitDir) then .otherWorktree
  else .foreign

end Agend.Shim
