import Mathlib.Data.List.Infix

/-! Paths as texts, taken apart into components and put together again; nothing is looked up. -/
namespace Agend.Library.Path

/-- A component of a path. -/
inductive Component where
  | rootDir
  | curDir
  | parentDir
  | normal (name : String)
  deriving DecidableEq

def isAbsolute (p : String) : Bool := p.toList.head? = some '/'

/-- Empty components count for nothing, `.` only at the start. -/
def components (p : String) : List Component :=
  let parts := p.toList.splitOn '/'
  let normal (w : List Char) : Option Component :=
    if w = [] ∨ w = ['.'] then none
    else if w = ['.', '.'] then some .parentDir
    else some (.normal (String.ofList w))
  let first : List Component :=
    if isAbsolute p then [.rootDir] else if parts.head? = some ['.'] then [.curDir] else []
  first ++ parts.filterMap normal

/-- An absolute path replaces. -/
def join (p q : String) : String :=
  if isAbsolute q ∨ p = "" then q
  else if p.toList.getLast? = some '/' then p ++ q
  else p ++ "/" ++ q

def ofComponents (cs : List Component) : String :=
  cs.foldl (fun p c => join p (match c with
    | .rootDir => "/"
    | .curDir => "."
    | .parentDir => ".."
    | .normal name => name)) ""

/-- Component by component. -/
def isUnder (p q : String) : Bool := (components q).isPrefixOf (components p)

def samePath (p q : String) : Bool := components p = components q

def parent (p : String) : Option String :=
  match (components p).getLast? with
  | none | some .rootDir => none
  | some _ => some (ofComponents (components p).dropLast)

/-- A path and its parents. -/
def ancestors (p : String) : List String :=
  ((components p).inits.reverse.filter fun cs => cs ≠ [] || !isAbsolute p).map ofComponents

end Agend.Library.Path
