import Agend.Holder.Control
import Agend.Scrollback.Terminal

/-! The adapter between the parser and the terminal, which numbers the rows of the normal screen, and
what a view is shown of them. -/
namespace Agend.Scrollback

open Holder (FrameError validateFrameSize)

variable {τ α ρ : Type}

structure History where
  liveTop : Nat := 0
  top : Nat := 0
  bottom : Nat := 0
  rebaseOnNormal : Bool := false
  deriving DecidableEq

structure Tracked (τ : Type) where
  term : τ
  history : History

namespace History

def new (rows : Nat) : History := { bottom := rows }

/-- Reflow replaces row boundaries. -/
def rebase (T : Terminal τ α ρ) (h : History) (t : τ) : History :=
  { h with
    liveTop := h.liveTop + (T.screenLines t + T.historySize t),
    rebaseOnNormal := false }

def resize (T : Terminal τ α ρ) (h : History) (t : τ) : History :=
  let h := { h with top := 0, bottom := T.screenLines t }
  if T.altScreen t then { h with rebaseOnNormal := true } else h.rebase T t

end History

/-- The number of lines up to the last one with something in it. -/
def filledLines (T : Terminal τ α ρ) (t : τ) : Option Nat :=
  ((List.range (T.screenLines t)).reverse.find? fun line =>
    (List.range (T.columns t)).any fun column => !T.cellEmpty t line column).map (· + 1)

/-- A glyph of two cells has no place in one column. -/
def clipped (wide : Char → Bool) (columns : Nat) (c : Char) : Char :=
  if columns = 1 ∧ wide c then ' ' else c

namespace Tracked

variable (T : Terminal τ α ρ) (wide : Char → Bool) (x : Tracked τ)

def normal : Tracked τ :=
  if x.history.rebaseOnNormal ∧ T.altScreen x.term = false then
    { x with history := x.history.rebase T x.term }
  else x

/-- The terminal that an action is performed on: the display is one row up when the rows that leave
the screen are to be counted. -/
def watched (eligible : Bool) (exact : Option Nat) : τ :=
  if T.altScreen x.term = false ∧ eligible ∧ exact = none ∧ 0 < T.historySize x.term then
    T.scrollDisplay (.delta 1) x.term
  else x.term

/-- How many rows the adapter takes to have left the screen. -/
def counted (eligible : Bool) (exact : Option Nat) (after : τ) : Nat :=
  if T.altScreen x.term = false ∧ eligible then
    exact.getD <|
      if T.historySize x.term = 0 then T.historySize after else T.displayOffset after - 1
  else 0

def apply (eligible : Bool) (exact : Option Nat) (f : τ → τ) : Tracked τ :=
  let after := f (x.watched T eligible exact)
  let history :=
    { x.history with liveTop := x.history.liveTop + x.counted T eligible exact after }
  normal T { term := T.scrollDisplay .bottom after, history := history }

/-- Handed on as it is. -/
def forward (a : Action α) : Tracked τ := normal T { x with term := T.perform a x.term }

def single (a : Action α) : Tracked τ := x.apply T (x.history.top = 0) none (T.perform a)

def input (c : Char) : Tracked τ := x.single T (.input (clipped wide (T.columns x.term) c))

def scrollUp (rows : Nat) : Tracked τ :=
  x.apply T (x.history.top = 0) (some (min rows (x.history.bottom - x.history.top)))
    (T.perform (.scrollUp rows))

def deleteLines (lines : Nat) : Tracked τ :=
  let origin := T.cursorLine x.term
  x.apply T (origin = 0 ∧ x.history.top = 0) (some (min lines (x.history.bottom - origin)))
    (T.perform (.deleteLines lines))

def clearScreen (mode : ClearMode) : Tracked τ :=
  let count := if mode = .all then filledLines T x.term else none
  x.apply T count.isSome count (T.perform (.clearScreen mode))

def resetState : Tracked τ :=
  let term := T.perform .resetState x.term
  let history := { x.history with top := 0, bottom := T.screenLines term }
  { term := term, history := history.rebase T term }

def setScrollingRegion (top : Nat) (bottom : Option Nat) : Tracked τ :=
  let lines := T.screenLines x.term
  { term := T.perform (.setScrollingRegion top bottom) x.term,
    history :=
      if top < bottom.getD lines then
        { x.history with top := top - 1, bottom := min (bottom.getD lines) lines }
      else x.history }

/-- What the terminal is asked for an action. -/
def asked : Action α → Action α
  | .input c => .input (clipped wide (T.columns x.term) c)
  | a => a

/-- Every method of the parser's handler. -/
def handle : Action α → Tracked τ
  | .input c => x.input T wide c
  | .putTab count => x.single T (.putTab count)
  | .linefeed => x.single T .linefeed
  | .newline => x.single T .newline
  | .scrollUp rows => x.scrollUp T rows
  | .deleteLines lines => x.deleteLines T lines
  | .clearScreen mode => x.clearScreen T mode
  | .resetState => x.resetState T
  | .setScrollingRegion top bottom => x.setScrollingRegion T top bottom
  | .setPrivateMode mode => x.forward T (.setPrivateMode mode)
  | .unsetPrivateMode mode => x.forward T (.unsetPrivateMode mode)
  | .forwarded name arguments => x.forward T (.forwarded name arguments)

end Tracked

/-- Wide characters are cut in both grids before a terminal has one column only. -/
def prepare (T : Terminal τ α ρ) (t : τ) : τ :=
  if T.altScreen t then T.putGrid (T.clip t) (T.swapAlt (T.clip (T.swapAlt t))) else T.clip t

/-- The terminal with its size. -/
structure Display (τ : Type) extends Tracked τ where
  rows : Nat
  columns : Nat

def Display.resize (T : Terminal τ α ρ) (d : Display τ) (rows columns : Nat) : Display τ :=
  let term := T.resize rows columns (if columns = 1 then prepare T d.term else d.term)
  { term := term, history := d.history.resize T term, rows := rows, columns := columns }

structure Screen (τ π : Type) extends Display τ where
  parser : π
  revision : Nat

/-- The parser: what it asks for after some bytes, and what it keeps of them. -/
structure Parser (π α : Type) where
  new : π
  advance : π → List UInt8 → π × List (Action α)

/-- The parser gives rows from one on. -/
def Parser.Emits (P : Parser π α) : Prop :=
  ∀ p bytes, ∀ a ∈ (P.advance p bytes).2, a.Emitted

namespace Screen

variable {π : Type} (T : Terminal τ α ρ) (wide : Char → Bool) (P : Parser π α) (s : Screen τ π)

def new (rows columns : Nat) : Screen τ π :=
  { term := T.new rows columns, history := .new rows, parser := P.new, rows := rows,
    columns := columns, revision := 0 }

def process (bytes : List UInt8) : Screen τ π :=
  if bytes.isEmpty then s
  else
    let (parser, actions) := P.advance s.parser bytes
    { s with
      toTracked := actions.foldl (fun x a => x.handle T wide a) s.toTracked,
      parser := parser,
      revision := s.revision + 1 }

def resize (rows columns : Nat) : Screen τ π :=
  if (rows, columns) = (s.rows, s.columns) then s
  else { s with toDisplay := s.toDisplay.resize T rows columns, revision := s.revision + 1 }

end Screen

/-- `top` pins a row of the normal screen; without it the view follows the live screen. -/
structure Viewport where
  top : Option Nat
  rows : Nat

structure Frame (ρ : Type) where
  revision : Nat
  rows : Nat
  columns : Nat
  alternateScreen : Bool
  historyOldest : Nat
  liveTop : Nat
  viewportTop : Nat
  viewportClamped : Bool
  cells : List ρ
  cursorRow : Nat
  cursorColumn : Nat
  cursorVisible : Bool
  deriving DecidableEq

/-- The row that a frame shows under a number. -/
def Frame.rowAt (f : Frame ρ) (n : Nat) : Option ρ :=
  if f.viewportTop ≤ n then f.cells[n - f.viewportTop]? else none

namespace Screen

variable (T : Terminal τ α ρ) (s : Screen τ π)

/-- The rows of the grid stand for the cells that are drawn of them. -/
def frame (minimum : Nat) (viewport : Viewport) : Except FrameError (Frame ρ) :=
  if viewport.rows = 0 ∨ s.rows < viewport.rows then .error .invalidSize
  else
    match validateFrameSize minimum ⟨viewport.rows, s.columns⟩ with
    | .error e => .error e
    | .ok () =>
      let alternate := T.altScreen s.term
      let liveTop := if alternate then 0 else s.history.liveTop
      let historyOldest := liveTop - T.historySize s.term
      let requested := viewport.top.getD liveTop
      let viewportTop :=
        if alternate then 0
        else min (max requested historyOldest) (liveTop + (s.rows - viewport.rows))
      let first : Int := (viewportTop : Int) - liveTop
      let cursorRow : Int := (T.cursorLine s.term : Int) - first
      .ok
        { revision := s.revision
          rows := s.rows
          columns := s.columns
          alternateScreen := alternate
          historyOldest := historyOldest
          liveTop := liveTop
          viewportTop := viewportTop
          viewportClamped := viewport.top.isSome && viewportTop ≠ requested
          cells := (List.range viewport.rows).map fun (i : Nat) => T.row s.term (first + i)
          cursorRow := (min (max cursorRow 0) ((viewport.rows : Int) - 1)).toNat
          cursorColumn := T.cursorColumn s.term
          cursorVisible := 0 ≤ cursorRow ∧ cursorRow < viewport.rows ∧ T.cursorShown s.term }

end Screen

end Agend.Scrollback
