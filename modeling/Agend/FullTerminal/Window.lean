import Agend.Library.Trace

/-! The full terminal of the operator's window: what it shows, and when it types. -/
namespace Agend.FullTerminal

open Library

structure TerminalSize where
  rows : Nat
  columns : Nat
  deriving DecidableEq

/-- A complete frame. Of its cells it matters which rows show text, of its cursor where it is
visible. -/
structure TerminalFrame where
  generation : String
  revision : Nat
  size : TerminalSize
  alternateScreen : Bool
  historyOldest : Nat
  liveTop : Nat
  viewportTop : Nat
  viewportClamped : Bool
  cells : List Bool
  cursorRow : Option Nat
  deriving DecidableEq

/-- The rows before the ones that show the end of the output and the cursor. -/
def TerminalFrame.liveOffset (f : TerminalFrame) (rows : Nat) : Nat :=
  if f.alternateScreen then 0
  else
    max (f.cells.length - (f.cells.reverse.takeWhile (!·)).length)
      ((f.cursorRow.map (· + 1)).getD 0) - rows

structure FrameData where
  requestId : String
  instanceId : String
  viewId : String
  frame : TerminalFrame
  deriving DecidableEq

structure TerminalViewport where
  top : Option Nat
  rows : Nat
  deriving DecidableEq

structure Pending where
  id : String
  size : TerminalSize
  acquire : Bool
  deriving DecidableEq

structure FullView where
  data : Option FrameData
  expanded : Bool
  owner : Option String
  ready : Bool
  lostControl : Bool
  selection : String
  viewport : TerminalViewport
  pending : Option Pending
  next : Nat
  inputPending : List String
  followTop : Nat
  fitRequested : Option TerminalSize
  deriving DecidableEq

namespace FullView

def new (rows : Nat) : FullView where
  data := none
  expanded := false
  owner := none
  ready := false
  lostControl := false
  selection := "tui-view"
  viewport := ⟨none, rows⟩
  pending := none
  next := 0
  inputPending := []
  followTop := 0
  fitRequested := none

def count (f : FullView) : FullView := { f with next := f.next + 1 }

/-- The id of the next request. -/
def id (f : FullView) : String := "tui-terminal-" ++ toString (f.next + 1)

def revoke (f : FullView) : FullView :=
  { f with
    owner := none
    pending := none
    expanded := false
    inputPending := []
    lostControl := false
    fitRequested := none }

end FullView

inductive TermMode where
  | live
  | stopped
  | ended
  deriving DecidableEq

/-- The open terminal view; without `full` it is one of an older daemon. -/
structure Term where
  full : Option FullView
  upgradeRequired : Bool
  agent : String
  mode : TermMode
  typing : Bool
  deriving DecidableEq

def Term.new (agent : String) (mode : TermMode) : Term := ⟨none, false, agent, mode, false⟩

inductive SourceError where
  | disconnected
  | version
  | rejected (code : String)
  deriving DecidableEq

inductive TerminalControlState where
  | readOnly
  | controlled (attachId : String)
  deriving DecidableEq

structure ControlAck where
  requestId : String
  instanceId : String
  viewId : String
  generation : String
  control : TerminalControlState
  frame : Option TerminalFrame
  deriving DecidableEq

inductive FullTerminalEvent where
  | frame (data : FrameData)
  | controlAck (data : ControlAck)
  | controlChanged (viewId generation : String) (control : TerminalControlState)
  | refused (requestId : Option String) (code : String)
  | closed
  deriving DecidableEq

/-- What passes between the window and the source, and what ends a grant. -/
inductive Exchange where
  | opened
  /-- The connection is closed, or was found closed. -/
  | closed
  /-- The user asked to type. -/
  | acquire (id : String) (size : TerminalSize)
  | resize (id attachId : String)
  | input (attachId viewId generation : String)
  /-- An Acquire was acknowledged with a frame. -/
  | granted (id attachId viewId : String) (frame : TerminalFrame)
  /-- Control was lost to another window. -/
  | readOnly
  | refused
  /-- A frame of another generation came. -/
  | renewed
  | stopped
  deriving DecidableEq

structure App where
  outerSize : TerminalSize
  term : Option Term
  /-- Whether the source has a full terminal connection. -/
  connected : Bool
  log : List Exchange
  deriving DecidableEq

/-- What the source answers to the calls of one event, and whether the agent is stopped. -/
structure Answers where
  control : String → Except SourceError Unit
  viewport : String → Except SourceError Unit
  openFull : Except SourceError Bool
  openTerminal : Except SourceError Unit
  legacyReadOnly : Bool
  stopped : Bool

namespace App

variable (ans : Answers) (a : App)

def fullRows (expanded : Bool) : Nat :=
  min (max (a.outerSize.rows - if expanded then 1 else 2) 1) 1000

def fullSize : TerminalSize := ⟨a.outerSize.rows - 1, a.outerSize.columns⟩

def fullMode : Bool := (a.term.bind (·.full)).any (·.expanded)

def note (x : Exchange) : App := { a with log := x :: a.log }

def closeTerminal : App := note { a with connected := false } .closed

def put (t : Term) (f : FullView) : App := { a with term := some { t with full := some f } }

/-- A request on the connection, if there is one. -/
def sends (answer : Except SourceError Unit) : Except SourceError Unit :=
  if a.connected then answer else .error .disconnected

/-- Any failed request retires the connection, and with it what it was for. -/
def fullSendError : App :=
  closeTerminal { a with term := a.term.map fun t => { t with
    typing := false
    full := t.full.map FullView.revoke
    mode := .ended } }

def newFullTerm (agent : String) (mode : TermMode) : App × Except SourceError (Option Term) :=
  let a := a.closeTerminal
  match ans.openFull with
  | .ok true => (note { a with connected := true } .opened, .ok (some { Term.new agent mode with
      full := some (.new 1000) }))
  | .ok false => (a, .ok none)
  | .error e => (a, .error e)

def modeFor : TermMode := if ans.stopped then .stopped else .live

/-- The user asks to type: control of the terminal at the size of the window. -/
def beginFull : App :=
  match a.term with
  | none => a
  | some t =>
    if t.mode ≠ .live then a
    else
      match t.full with
      | none => a
      | some f =>
        if f.ready = false ∨ f.pending.isSome then a
        else if f.data.isNone then a
        else
          let b := a.put { t with typing := false } { f.count with
            expanded := true
            pending := some ⟨f.id, a.fullSize, true⟩ }
          match a.sends (ans.control f.id) with
          | .ok () => b.note (.acquire f.id a.fullSize)
          | .error _ => b.fullSendError

/-- A viewport is selected; without an expanded view its fit comes along. -/
def selectFullViewport (top : Option Nat) (rows : Nat) : App :=
  match a.term with
  | none => a
  | some t =>
    match t.full with
    | none => a
    | some f =>
      if f.ready = false ∨ f.pending.isSome then a
      else if f.data.isNone then a
      else
        match a.sends (ans.viewport f.id) with
        | .ok () => a.put t { f.count with
            selection := f.id
            viewport := ⟨top, rows⟩
            fitRequested := if f.expanded then f.fitRequested
              else some ⟨a.fullRows false, min (max a.outerSize.columns 1) 1000⟩ }
        | .error _ => (a.put t f.count).fullSendError

/-- The rows that a smaller or larger view follows the output by. -/
def followed (f : FullView) : FullView :=
  let rows := a.fullRows false
  match f.data with
  | none => f
  | some d =>
    if f.viewport.top.isNone then
      { f with followTop := d.frame.liveTop + d.frame.liveOffset rows }
    else if f.viewport.rows ≠ rows then
      { f with followTop := f.followTop + f.viewport.rows - rows }
    else f

/-- The terminal follows the size of the window; while it does not have it, nothing is typed. -/
def resizeFull : App :=
  match a.term with
  | none => a
  | some t =>
    if t.mode ≠ .live then a
    else
      match t.full with
      | none => a
      | some f =>
        if f.ready = false then a
        else if f.expanded then
          if f.pending.isNone ∧ f.data.any fun d => d.frame.size = a.fullSize then a
          else
            let t := { t with typing := false }
            if f.pending.isSome then a.put t f
            else
              match f.owner, f.data with
              | some attach, some _ =>
                let b := a.put t { f.count with pending := some ⟨f.id, a.fullSize, false⟩ }
                match a.sends (ans.control f.id) with
                | .ok () => b.note (.resize f.id attach)
                | .error _ => b.fullSendError
              | _, _ => a.put t f
        else
          let f := a.followed f
          let b := a.put t f
          let rows := if f.viewport.top.isNone then 1000 else a.fullRows false
          let fit : TerminalSize := ⟨a.fullRows false, min (max a.fullSize.columns 1) 1000⟩
          if f.viewport.rows ≠ rows ∨ f.fitRequested ≠ some fit then
            b.selectFullViewport ans f.viewport.top rows
          else b

def resize (size : TerminalSize) : App :=
  if a.outerSize = size then a
  else
    let a := { a with outerSize := size }
    if (a.term.bind (·.full)).isSome then a.resizeFull ans else a

def scrollTerminal (delta : Int) : App :=
  match a.term.bind (·.full) with
  | none => a
  | some f =>
    match f.data with
    | none => a
    | some d =>
      if d.frame.alternateScreen then a
      else
        let bottom := if f.expanded then d.frame.liveTop else max f.followTop d.frame.liveTop
        let top := f.viewport.top.getD bottom
        let target := min (max (top + delta).toNat d.frame.historyOldest) bottom
        let selection := if target < bottom then some target else none
        let rows := if selection.isNone ∧ a.fullMode = false then 1000 else a.fullRows a.fullMode
        a.selectFullViewport ans selection rows

/-- The bytes of a key, a paste, the mouse or the focus go to the agent. -/
def sendFullBytes (bytes : List UInt8) : App :=
  if bytes = [] then a
  else
    match a.term with
    | none => a
    | some t =>
      if t.typing = false then a
      else
        match t.full with
        | none => a
        | some f =>
          if 64 ≤ f.inputPending.length then a
          else
            match f.owner, f.data with
            | some attach, some d =>
              match a.sends (ans.control f.id) with
              | .ok () => (a.put t { f.count with inputPending := f.id :: f.inputPending }).note
                  (.input attach d.viewId d.frame.generation)
              | .error (.rejected _) => a.put t f.count
              | .error _ => (a.put t f.count).fullSendError
            | _, _ => a

/-- A frame of the view, of its generation and not older than what is shown, is shown. -/
def onFrame (t : Term) (f : FullView) (data : FrameData) : App :=
  if data.instanceId ≠ t.agent ∨ data.requestId ≠ f.selection then a
  else
    let rows := a.fullRows false
    let top := if data.frame.viewportClamped ∧ f.viewport.top.isSome then
      some data.frame.viewportTop else f.viewport.top
    let followTop :=
      if top.isNone then data.frame.liveTop + data.frame.liveOffset rows
      else if f.data.any fun old => old.frame.liveTop < data.frame.liveTop then
        data.frame.liveTop + (data.frame.size.rows - rows)
      else f.followTop
    let shown := a.put { t with mode := if t.mode = .stopped then .stopped else .live } { f with
      viewport := { f.viewport with top }
      followTop
      ready := true
      data := some data }
    match if f.ready then f.data else none with
    | none => shown
    | some old =>
      if data.viewId ≠ old.viewId then a
      else if data.frame.generation ≠ old.frame.generation then
        ((a.put { t with
          typing := false
          mode := .ended } f.revoke).note .renewed).closeTerminal
      else if data.frame.revision < old.frame.revision then a
      else shown

/-- Control is held, at the size that was asked for. -/
def acknowledged (t : Term) (f : FullView) (pending : Pending) (data : ControlAck)
    (frame : TerminalFrame) (attach : String) (typing : Bool) : App :=
  let b := a.put { t with typing } { f with
    owner := some attach
    lostControl := false
    pending := none
    selection := data.requestId
    viewport := ⟨none, frame.size.rows⟩
    data := some ⟨data.requestId, data.instanceId, data.viewId, frame⟩ }
  if pending.acquire then b.note (.granted pending.id attach data.viewId frame) else b

/-- The acknowledgement of a pending request, of its view and with its complete frame. -/
def onControlAck (t : Term) (f : FullView) (data : ControlAck) : App :=
  if (f.data.any fun d => d.viewId = data.viewId && d.frame.generation = data.generation) ∧
      data.requestId ∈ f.inputPending then
    a.put t { f with inputPending := f.inputPending.filter (· ≠ data.requestId) }
  else
    match f.pending, f.data with
    | some pending, some old =>
      if data.requestId ≠ pending.id ∨ data.instanceId ≠ t.agent then a
      else if data.viewId ≠ old.viewId ∨ data.generation ≠ old.frame.generation then a
      else
        match data.frame with
        | none => a.fullSendError
        | some frame =>
          if frame.size ≠ pending.size ∨ frame.cells.length ≠ frame.size.rows ∨
              frame.generation ≠ old.frame.generation ∨ frame.revision < old.frame.revision then
            a.fullSendError
          else
            match data.control with
            | .readOnly => (a.put { t with typing := false } f.revoke).note .refused
            | .controlled attach =>
              let typing := f.expanded && a.fullSize = frame.size && t.mode = .live
              let b := a.acknowledged t f pending data frame attach typing
              if f.expanded && !typing then b.resizeFull ans else b
    | _, _ => a

def onControlChanged (t : Term) (f : FullView) (viewId generation : String)
    (control : TerminalControlState) : App :=
  if (f.data.any fun d => d.viewId = viewId && d.frame.generation = generation) ∧
      control = .readOnly then
    let f := { f with owner := none }
    -- a notice for the preceding owner can precede the answer to our explicit new Acquire
    let f := if f.pending.any (·.acquire) then f else f.revoke
    (a.put { t with typing := false } { f with lostControl := true }).note .readOnly
  else a

def onRefused (t : Term) (f : FullView) (requestId : Option String) (code : String) : App :=
  let wasInput := requestId.any (· ∈ f.inputPending)
  let f := { f with inputPending := f.inputPending.filter fun id => requestId ≠ some id }
  let a := a.put t f
  if (requestId.any fun id => id ≠ f.selection && !(f.pending.any (·.id = id))) ∧
      wasInput = false then a
  else if wasInput ∧ (code = "invalid_request" ∨ code = "busy") then a
  else if f.pending.any (·.acquire) ∧ f.owner.isNone ∧
      (code = "not_supported" ∨ code = "forbidden") then
    (a.put { t with typing := false } f.revoke).note .refused
  else if f.ready = false ∧ code = "not_supported" then
    let a := a.closeTerminal
    match ans.openTerminal with
    | .ok () => { a with term := some { t with
        full := none
        upgradeRequired := true
        typing := false } }
    | .error _ => a.fullSendError
  else
    ((a.put { t with
      typing := false
      mode := .ended } f.revoke).note .refused).closeTerminal

def onClosed (t : Term) (f : FullView) : App :=
  closeTerminal (a.put { t with
    typing := false
    mode := .ended } { f.revoke with ready := false })

/-- One event of the source. -/
def handle (e : FullTerminalEvent) : App :=
  match a.term with
  | none => a
  | some t =>
    match t.full with
    | none => a
    | some f =>
      match e with
      | .frame data => a.onFrame t f data
      | .controlAck data => a.onControlAck ans t f data
      | .controlChanged viewId generation control => a.onControlChanged t f viewId generation control
      | .refused requestId code => a.onRefused ans t f requestId code
      | .closed => a.onClosed t f

/-- The events that came are applied, and the size of the window after them. -/
def pumpFullTerminal (events : List FullTerminalEvent) : App :=
  (events.foldl (handle ans) a).resizeFull ans

/-- The terminal of the view on top is opened again, read only. -/
def reopenTerminal (agent : String) : App :=
  let old := a.term.bind (·.full) |>.bind (·.data)
  match a.newFullTerm ans agent (modeFor ans) with
  | (a, .ok (some t)) => { a with term := some { t with full := t.full.map fun f => { f with
      data := old } } }
  | (a, .ok none) => { a with term := some { Term.new agent (match ans.openTerminal with
      | .ok () => modeFor ans
      | .error _ => .ended) with upgradeRequired := ans.legacyReadOnly } }
  | (a, .error _) => { a with term := some { (a.term.getD (Term.new agent .ended)) with
      typing := false
      full := (a.term.bind (·.full)).map FullView.revoke
      mode := .ended } }

/-- A stopped agent is not typed to. -/
def followAgent (t : Term) (f : FullView) : App × TermMode :=
  if ans.stopped then
    (((a.put { t with
      typing := false
      mode := .stopped } f.revoke).note .stopped).closeTerminal, .stopped)
  else (a, t.mode)

/-- What came is applied; `due` says that it is time to try an ended terminal again. -/
def pumpTerminal (events : List FullTerminalEvent) (due : Bool) : App :=
  let a := a.pumpFullTerminal ans events
  match a.term with
  | none => a
  | some t =>
    match t.full with
    | none => a
    | some f =>
      let (a, mode) := a.followAgent ans t f
      if mode = .ended ∧ due ∨ mode = .stopped ∧ ans.stopped = false then
        a.reopenTerminal ans t.agent
      else a

/-- The key `i`; an old terminal is typed into at once, unless it is read only. -/
def startTyping : App :=
  match a.term with
  | none => a
  | some t =>
    if t.mode ≠ .live then a
    else if t.full.isSome then a.beginFull ans
    else if t.upgradeRequired then a
    else { a with term := some { t with typing := true } }

/-- The key that leaves full mode. -/
def stopTyping : App :=
  match a.term with
  | none => a
  | some t => a.closeTerminal.reopenTerminal ans t.agent

def openTerminal (agent : String) : App :=
  match a.newFullTerm ans agent (modeFor ans) with
  | (a, .ok (some t)) => { a with term := some t }
  | (a, .error _) => a
  | (a, .ok none) =>
    match ans.openTerminal with
    | .ok () => { a with term := some { Term.new agent (modeFor ans) with
        upgradeRequired := ans.legacyReadOnly } }
    | .error _ =>
      let a := a.closeTerminal
      match a.term with
      | none => a
      | some t => reopenTerminal ans { a with term := none } t.agent

/-- The subscription follows the view on top. -/
def syncTerminal (top : Option String) : App :=
  match top, a.term with
  | none, some _ => closeTerminal { a with term := none }
  | some top, some t => if t.agent = top then a else a.reopenTerminal ans top
  | some top, none => a.reopenTerminal ans top
  | none, none => a

/-- The connection to the daemon is lost. -/
def lost : App :=
  match a.term with
  | none => a
  | some _ => closeTerminal { a with term := none }

end App

inductive Event where
  | resize (size : TerminalSize)
  | type_
  | stopTyping
  | bytes (bytes : List UInt8)
  | scroll (delta : Int)
  | pump (events : List FullTerminalEvent) (due : Bool)
  | openTerminal (agent : String)
  | sync (top : Option String)
  | lost

/-- One event. In full mode keys are for the agent, or leave it. -/
def App.next (a : App) (ans : Answers) : Event → App
  | .resize size => a.resize ans size
  | .type_ => if a.fullMode then a else a.startTyping ans
  | .stopTyping => if a.fullMode then a.stopTyping ans else a
  | .bytes bytes => a.sendFullBytes ans bytes
  | .scroll delta => a.scrollTerminal ans delta
  | .pump events due => a.pumpTerminal ans events due
  | .openTerminal agent => if a.fullMode then a else a.openTerminal ans agent
  | .sync top => a.syncTerminal ans top
  | .lost => a.lost

end Agend.FullTerminal
