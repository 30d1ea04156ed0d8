import Agend.Engine.Lifecycle
import Agend.Library.Json
import Agend.Library.Path
import Agend.Runtime.OpenCode

/-! The permission requests of an OpenCode server, and what one is answered by: one claim, by the
operator or by the ownership of a worktree. -/
namespace Agend.OpenCode

open Library
open Agend.Pipeline (Workflow PipelineState PipelineStatus)
open Agend.Engine (TaskRow BindingRow)

/-- A request as it is shown and answered; `native` is its complete body. -/
structure Permission where
  id : String
  session : String
  kind : String
  patterns : List String
  native : Json
  deriving DecidableEq

/-- An id of the server: a prefix and more, letters, digits and underscores only. -/
def validId (id start : String) : Bool :=
  start.toList.isPrefixOf id.toList && start.utf8ByteSize < id.utf8ByteSize &&
    id.utf8ByteSize ≤ 256 && id.toList.all fun c => c.isAlphanum || c = '_'

def strings (row : Json) (key : String) : Except String (List String) := do
  let items ← okOr (row.index key).asArr s!"invalid OpenCode permission {key}"
  items.mapM fun v => okOr v.asStr s!"invalid OpenCode permission {key}"

/-- Whether the tool that asks is named, when there is one. -/
def namesTool (row : Json) : Bool :=
  match row.get? "tool" with
  | none => true
  | some tool =>
    ((tool.index "messageID").asStr.any fun s => validId s "msg") &&
      (tool.index "callID").asStr.any fun s => s ≠ ""

/-- A row of the list, for its own session. -/
def request (id session : String) (row : Json) : Except String Permission := do
  let kind ← okOr ((row.index "permission").asStr.filter fun s => s ≠ "")
    "invalid OpenCode permission kind"
  let patterns ← strings row "patterns"
  let _ ← strings row "always"
  require ((row.index "metadata").isObj = true) "invalid OpenCode permission metadata"
  require (namesTool row = true) "invalid OpenCode permission tool identity"
  return ⟨id, session, kind, patterns, row⟩

/-- A row for another session is not looked into. -/
def ownRequest (session id owner : String) (row : Json) : Except String (Option Permission) :=
  if owner = session then (request id owner row).map some else .ok none

/-- The requests of the session; `ids` are those of the rows before. -/
def parseRows (session : String) (ids : List String) : List Json → Except String (List Permission)
  | [] => .ok []
  | row :: rest => do
    let id ← okOr ((row.index "id").asStr.filter fun s => validId s "per")
      "invalid OpenCode permission id"
    let owner ← okOr ((row.index "sessionID").asStr.filter fun s => validId s "ses")
      "invalid OpenCode permission session"
    require (id ∉ ids) "duplicate OpenCode permission id"
    let found ← ownRequest session id owner row
    let later ← parseRows session (id :: ids) rest
    return found.toList ++ later

def parse (session : String) (value : Json) : Except String (List Permission) := do
  let rows ← okOr value.asArr "invalid OpenCode permission list"
  parseRows session [] rows

inductive Status where
  | pending
  | unknown
  | resolved
  | stale
  deriving DecidableEq

/-- A row of `opencode_permissions`. The ids are digests, which `κ` stands for. -/
structure Row (κ : Type) where
  id : κ
  instanceId : String
  sessionId : String
  requestId : String
  native : Json
  decision : Option Bool
  attemptedAtUnixMs : Option Nat
  status : Status
  createdAtUnixMs : Nat

/-- The tables that say who owns a worktree. A stored workflow is what its text parses to. -/
structure Ownership where
  tasks : Table TaskRow.id
  bindings : Table BindingRow.instanceId
  workflows : List ((String × Nat) × Except String Workflow)

/-- What the file system answers during a call. -/
structure Files where
  isDir : String → Bool
  canonical : String → Option String

structure Grant where
  task : String
  version : Nat
  ticket : String
  worktree : String
  deriving DecidableEq

/-- The tables of the agents, of who owns what, and of the requests. -/
structure Permissions (κ : Type) [DecidableEq κ] where
  base : Runtime.Store
  owned : Ownership
  rows : Table (Row.id (κ := κ))

section

variable {κ : Type} [DecidableEq κ]

/-- The digest of the agent, the session, the id and the native body. -/
def identity (digest : String × String × String × Json → κ) (instanceId : String)
    (p : Permission) : κ :=
  digest (instanceId, p.session, p.id, p.native)

namespace Permissions

variable (digest : String × String × String × Json → κ)
  (reread : Json → Except String Json) (s : Permissions κ)

/-- Whether the agent runs OpenCode push in the session. -/
def hosts (instanceId session : String) : Bool :=
  (s.base.instances.get instanceId).any fun i => decide (i.hosts session)

/-- One observed request; a row that exists is left as it is. -/
def insert (instanceId session : String) (now : Nat) (s : Permissions κ) (p : Permission) :
    Except String (Permissions κ) := do
  require (p.session = session) "foreign OpenCode permission"
  require (now < 2 ^ 63) "time out of range"
  match s.rows.get (identity digest instanceId p) with
  | some _ => return s
  | none => return { s with
      rows := s.rows.put ⟨identity digest instanceId p, instanceId, session, p.id, p.native, none,
        none, .pending, now⟩ }

/-- What is no longer listed is stale. -/
def expire (instanceId : String) (present : List κ) (r : Row κ) : Row κ :=
  if r.instanceId = instanceId ∧ (r.status = .pending ∨ r.status = .unknown) ∧ r.id ∉ present then
    { r with status := .stale }
  else r

def observe (instanceId session : String) (permissions : List Permission) (now : Nat) :
    Except String (Permissions κ) := do
  require (s.hosts instanceId session = true) "OpenCode permission session changed"
  let s ← permissions.foldlM (insert digest instanceId session now) s
  return { s with
    rows := s.rows.update (expire instanceId (permissions.map (identity digest instanceId)))
      fun r => by unfold expire; split_ifs <;> rfl }

/-- The stored request read again: its body, as it identifies the row. -/
def stored (r : Row κ) (missing : String) : Except String Permission := do
  let native ← reread r.native
  let found ← parse r.sessionId (.arr [native])
  let p ← okOr found.getLast? missing
  require (identity digest r.instanceId p = r.id) "permission snapshot identity changed"
  return p

/-- Whether the row is shown: open, and in the session that its agent records. -/
def shown (r : Row κ) : Bool :=
  (r.status = .pending || r.status = .unknown) &&
    (s.base.instances.get r.instanceId).any fun i =>
      i.sessionId = some r.sessionId && i.backend = .opencode && i.delivery = "push"

/-- The rows that are shown, each read again; the first that cannot be read is an error. -/
def pending : Except String (List (Row κ × Permission)) :=
  (s.rows.rows.filter s.shown).mapM fun r =>
    (stored digest reread r "missing permission").map fun p => (r, p)

/-- The work binding of an agent, with the task and the workflow it is for. -/
def workOf (instanceId : String) : Option (BindingRow × TaskRow × Except String Workflow) := do
  let b ← (s.owned.bindings.get instanceId).filter fun b => b.kind = .work && b.status = .ready
  let t ← (s.owned.tasks.get b.task).filter fun t => t.task.assignee = some b.instanceId &&
    t.task.status = .running && t.task.requiresRepo
  let w ← s.owned.workflows.lookup (t.task.workflowId, t.task.workflowVersion)
  return (b, t, w)

end Permissions

/-- Characters of a pattern that stand for others. -/
def isGlob (c : Char) : Bool := c ∈ ['*', '?', '[', ']', '\x7b', '\x7d', '\\']

/-- The pattern is of the directory itself, which is where its path says. -/
def names (files : Files) (worktree pattern : String) : Bool :=
  !worktree.toList.any isGlob && Path.isAbsolute worktree && files.isDir worktree &&
    (files.canonical worktree).any (Path.samePath · worktree) &&
    pattern = worktree ++ "/*"

/-- The current work stage of a running pipeline, with the ticket of its attempt. -/
def atWork (state : PipelineState) (task ticket : String) : Bool :=
  match state.currentStage with
  | none => false
  | some stage => state.taskId = task && state.status = .running && stage.isKind .work &&
      ticket = task ++ "/" ++ stage.id ++ "/" ++ toString state.attempt

/-- The stored pipeline of the task, put back together with its workflow. -/
def pipelineOf (t : TaskRow) (w : Workflow) : Except String PipelineState := do
  let snapshot ← okOr t.pipeline "invalid pipeline snapshot"
  let v ← (Engine.validate w).mapError fun e => reprStr e.message
  (PipelineState.restore snapshot v).mapError reprStr

namespace Permissions

variable (digest : String × String × String × Json → κ)
  (reread : Json → Except String Json) (s : Permissions κ)

/-- The grant of the worktree that the agent of a request works in. -/
def grantOf (files : Files) (r : Row κ) (p : Permission) : Except String (Option Grant) :=
  match p.patterns with
  | [pattern] =>
    if p.kind ≠ "external_directory" then .ok none
    else
      match s.workOf r.instanceId with
      | none => .ok none
      | some (b, t, w) => do
        let _ ← okOr t.progress "invalid column type of tasks.pipeline"
        if names files b.worktree pattern = false then return none
        else do
          let w ← w
          if w.id ≠ t.task.workflowId ∨ w.version ≠ t.task.workflowVersion ∨
              w.requiresRepo = false then return none
          else do
            let state ← pipelineOf t w
            if atWork state t.id b.ticket then
              return some ⟨t.id, t.version, b.ticket, b.worktree⟩
            else return none
  | _ => .ok none

def eligible (files : Files) (id : κ) : Except String (Option Grant) := do
  let shown ← s.pending digest reread
  match shown.find? fun x => x.1.id = id && x.1.status ≠ .unknown with
  | none => return none
  | some (r, p) => s.grantOf files r p

/-- The request is open, was never attempted, and its agent runs in its session. -/
def claimable (r : Row κ) : Bool :=
  r.status = .pending && r.attemptedAtUnixMs.isNone && s.hosts r.instanceId r.sessionId

/-- One network attempt. -/
def claim (id : κ) (allow : Bool) (now : Nat) :
    Except String (Permissions κ × Option (String × Permission)) :=
  match (s.rows.get id).filter s.claimable with
  | none => .ok (s, none)
  | some r => do
    let p ← stored digest reread r "missing stored permission"
    require (now < 2 ^ 63) "time out of range"
    let r' : Row κ := { r with
      decision := some allow
      attemptedAtUnixMs := some now
      status := .unknown }
    return ({ s with rows := s.rows.put r' }, some (r.instanceId, p))

/-- The claim of a worktree, when what it was granted for is still so. -/
def claimWorktree (files : Files) (id : κ) (grant : Grant) (now : Nat) :
    Except String (Permissions κ × Option (String × Permission)) := do
  let current ← s.eligible digest reread files id
  if current = some grant then s.claim digest reread id true now
  else return (s, none)

def resolved (id : κ) : Permissions κ :=
  match s.rows.get id with
  | some r =>
    if r.status = .unknown ∧ r.attemptedAtUnixMs.isSome = true then
      { s with rows := s.rows.put { r with status := .resolved } }
    else s
  | none => s

/-- The requests of a removed agent go with it. -/
def cascade (op : Runtime.Operation) (base : Runtime.Store) : Permissions κ :=
  match op with
  | .removeInstance id =>
    { s with base, rows := s.rows.filter fun r => r.instanceId ≠ id }
  | _ => { s with base }

end Permissions

inductive Request (κ : Type) where
  /-- Any call on the agents and their switches. -/
  | runtime (op : Runtime.Operation)
  /-- Any change of tasks, bindings and workflows. -/
  | owned (owned : Ownership)
  | observe (instanceId session : String) (permissions : List Permission) (now : Nat)
  | claim (id : κ) (allow : Bool) (now : Nat)
  | claimWorktree (files : Files) (id : κ) (grant : Grant) (now : Nat)
  | resolved (id : κ)

/-- What a call returns: for a claim, the request to answer. -/
abbrev Answer := Except String (Option (String × Permission))

namespace Permissions

variable (digest : String × String × String × Json → κ)
  (reread : Json → Except String Json) (s : Permissions κ)

def exec : Request κ → Except String (Permissions κ × Option (String × Permission))
  | .runtime op => (s.base.exec op).map fun (base, _) => (s.cascade op base, none)
  | .owned owned => .ok ({ s with owned }, none)
  | .observe instanceId session permissions now =>
    (s.observe digest instanceId session permissions now).map fun s => (s, none)
  | .claim id allow now => s.claim digest reread id allow now
  | .claimWorktree files id grant now => s.claimWorktree digest reread files id grant now
  | .resolved id => .ok (s.resolved id, none)

/-- A call that fails leaves the tables as they were. -/
def call (c : Request κ) : Permissions κ × Answer :=
  match s.exec digest reread c with
  | .ok (s', answer) => (s', .ok answer)
  | .error text => (s, .error text)

end Permissions

/-- Any calls in any order, from no requests; a restart changes nothing of this. -/
def permissions (digest : String × String × String × Json → κ)
    (reread : Json → Except String Json) : Machine (Permissions κ) (Request κ) Answer where
  init s := s.rows.rows = []
  step s c s' o := s.call digest reread c = (s', o)

end

end Agend.OpenCode
