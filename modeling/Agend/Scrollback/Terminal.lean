import Agend.Library.Scrollback

/-! The terminal under the screen: what the adapter calls of it, and what it is known to do. -/
namespace Agend.Scrollback

open Library.Scrollback

/-- Rows of scrollback. -/
def scrollbackRows : Nat := 1000

inductive ClearMode where
  | below
  | above
  | all
  | saved
  deriving DecidableEq

/-- The parser actions that the adapter hands on as they are. -/
inductive Forwarded where
  | setTitle | setCursorStyle | setCursorShape | goto | gotoLine | gotoCol | insertBlank
  | moveUp | moveDown | identifyTerminal | deviceStatus | moveForward | moveBackward
  | moveDownAndCr | moveUpAndCr | backspace | carriageReturn | bell | substitute
  | setHorizontalTabstop | scrollDown | insertBlankLines | eraseChars | deleteChars
  | moveBackwardTabs | moveForwardTabs | saveCursorPosition | restoreCursorPosition | clearLine
  | clearTabs | setTabs | reverseIndex | terminalAttribute | setMode | unsetMode | reportMode
  | reportPrivateMode | setKeypadApplicationMode | unsetKeypadApplicationMode
  | setActiveCharset | configureCharset | setColor | dynamicColorSequence | resetColor
  | clipboardStore | clipboardLoad | decaln | pushTitle | popTitle | textAreaSizePixels
  | textAreaSizeChars | setHyperlink | setMouseCursorIcon | reportKeyboardMode
  | pushKeyboardMode | popKeyboardModes | setKeyboardMode | setModifyOtherKeys
  | reportModifyOtherKeys | setScp
  deriving DecidableEq

/-- What the parser asks a terminal to do; a private mode is given by its number. -/
inductive Action (α : Type) where
  | input (c : Char)
  | putTab (count : Nat)
  | linefeed
  | newline
  | scrollUp (rows : Nat)
  | deleteLines (lines : Nat)
  | clearScreen (mode : ClearMode)
  | resetState
  | setScrollingRegion (top : Nat) (bottom : Option Nat)
  | setPrivateMode (mode : Nat)
  | unsetPrivateMode (mode : Nat)
  | forwarded (name : Forwarded) (arguments : α)
  deriving DecidableEq

/-- The parser gives rows from one on. -/
def Action.Emitted {α : Type} : Action α → Prop
  | .setScrollingRegion top _ => 1 ≤ top
  | _ => True

/-- DECCOLM. -/
def columnMode : Nat := 3

def Action.switchesColumns {α : Type} : Action α → Bool
  | .setPrivateMode mode | .unsetPrivateMode mode => mode = columnMode
  | _ => false

/-- One line at most is scrolled by these. -/
def Action.single {α : Type} : Action α → Bool
  | .input _ | .putTab _ | .linefeed | .newline => true
  | _ => false

/-- Rows can leave the screen with these. -/
def Action.scrolls {α : Type} : Action α → Bool
  | .input _ | .putTab _ | .linefeed | .newline => true
  | .scrollUp _ | .deleteLines _ | .clearScreen .all => true
  | _ => false

inductive Scroll where
  | delta (rows : Int)
  | bottom
  deriving DecidableEq

/-- What the adapter and the frames call of a terminal: `row` is what `grid[Line(i)]` gives, with
lines under zero in the history, and every reading is of the grid in use. -/
structure Terminal (τ α ρ : Type) where
  new : Nat → Nat → τ
  perform : Action α → τ → τ
  scrollDisplay : Scroll → τ → τ
  resize : Nat → Nat → τ → τ
  swapAlt : τ → τ
  /-- The wide characters of the grid in use are cut. -/
  clip : τ → τ
  /-- The grid in use is replaced by the one in use in another terminal. -/
  putGrid : τ → τ → τ
  altScreen : τ → Bool
  screenLines : τ → Nat
  columns : τ → Nat
  historySize : τ → Nat
  displayOffset : τ → Nat
  cursorLine : τ → Nat
  cursorColumn : τ → Nat
  cursorShown : τ → Bool
  cellEmpty : τ → Nat → Nat → Bool
  row : τ → Int → ρ

/-- The state that row numbers depend on: the scrolling region, and the normal screen also while
it is not in use. -/
structure Seen (ρ : Type) where
  alternate : Bool
  lines : Nat
  top : Nat
  bottom : Nat
  history : List ρ
  offset : Nat

variable {τ α ρ : Type}

/-- The rows that a scroll by `n` takes from the top of the screen. -/
def Terminal.topRows (T : Terminal τ α ρ) (t : τ) (n : Nat) : List ρ :=
  (List.range n).map fun (i : Nat) => T.row t i

/-- What is known of alacritty_terminal 0.26. `moved` counts the rows that an action takes from the
normal screen into its history. -/
structure Alacritty (T : Terminal τ α ρ) where
  seen : τ → Seen ρ
  moved : Action α → τ → Nat
  -- What the readings are.
  altScreen : ∀ t, T.altScreen t = (seen t).alternate
  screenLines : ∀ t, T.screenLines t = (seen t).lines
  historySize : ∀ t, T.historySize t =
    if (seen t).alternate then 0 else (seen t).history.length
  displayOffset : ∀ t, (seen t).alternate = false → T.displayOffset t = (seen t).offset
  row : ∀ t, (seen t).alternate = false → ∀ i, i < (seen t).history.length →
    (seen t).history[i]? = some (T.row t ((i : Int) - (seen t).history.length))
  history_le : ∀ t, (seen t).history.length ≤ scrollbackRows
  -- A new terminal, and the display.
  new : ∀ rows columns, 1 ≤ rows → 1 ≤ columns → seen (T.new rows columns) =
    { alternate := false, lines := rows, top := 0, bottom := rows, history := [], offset := 0 }
  scrollDisplay : ∀ s t, seen (T.scrollDisplay s t) =
    if (seen t).alternate then seen t else
      { seen t with offset := match s with
          | .delta rows => min (((seen t).offset : Int) + rows).toNat (seen t).history.length
          | .bottom => 0 }
  topRows_scrollDisplay : ∀ s t n, n ≤ (seen t).lines →
    T.topRows (T.scrollDisplay s t) n = T.topRows t n
  moved_scrollDisplay : ∀ a s t, moved a (T.scrollDisplay s t) = moved a t
  -- How many rows go into the history.
  moved_le : ∀ a t, moved a t ≤ (seen t).lines
  moved_alternate : ∀ a t, (seen t).alternate = true → moved a t = 0
  moved_single : ∀ a t, a.single = true →
    moved a t ≤ 1 ∧ ((seen t).top ≠ 0 → moved a t = 0)
  moved_scrollUp : ∀ n t, (seen t).alternate = false → moved (.scrollUp n) t =
    if (seen t).top = 0 then min n (seen t).bottom else 0
  moved_deleteLines : ∀ n t, (seen t).alternate = false → moved (.deleteLines n) t =
    if T.cursorLine t = 0 ∧ (seen t).top = 0 then min n (seen t).bottom else 0
  moved_clear : ∀ t, (seen t).alternate = false →
    (∀ line, moved (.clearScreen .all) t ≤ line → line < (seen t).lines →
      ∀ column, column < T.columns t → T.cellEmpty t line column = true) ∧
    (0 < moved (.clearScreen .all) t → ∃ column, column < T.columns t ∧
      T.cellEmpty t (moved (.clearScreen .all) t - 1) column = false)
  moved_other : ∀ a t, a.scrolls = false → moved a t = 0
  -- What an action does.
  scrolled : ∀ a t, a.scrolls = true → seen (T.perform a t) =
    { seen t with
      history := keep scrollbackRows ((seen t).history ++ T.topRows t (moved a t)),
      offset := (seen (T.perform a t)).offset }
  single_offset : ∀ a t, a.single = true → (seen t).alternate = false →
    (seen (T.perform a t)).offset = if (seen t).offset = 0 then 0 else
      min ((seen t).offset + moved a t) (seen (T.perform a t)).history.length
  clearSaved : ∀ t, seen (T.perform (.clearScreen .saved) t) =
    { seen t with
      history := if (seen t).alternate then (seen t).history else [],
      offset := (seen (T.perform (.clearScreen .saved) t)).offset }
  clearPart : ∀ mode t, mode = .below ∨ mode = .above →
    seen (T.perform (.clearScreen mode) t) = seen t
  resetState : ∀ t, seen (T.perform .resetState t) =
    { alternate := false, lines := (seen t).lines, top := 0, bottom := (seen t).lines,
      history := (seen (T.perform .resetState t)).history,
      offset := (seen (T.perform .resetState t)).offset }
  setScrollingRegion : ∀ top bottom t, 1 ≤ top →
    seen (T.perform (.setScrollingRegion top bottom) t) =
      if top < bottom.getD (seen t).lines then
        { seen t with
          top := min (top - 1) (seen t).lines,
          bottom := min (bottom.getD (seen t).lines) (seen t).lines }
      else seen t
  columnSwitch : ∀ a t, a.switchesColumns = true → seen (T.perform a t) =
    { seen t with top := 0, bottom := (seen t).lines }
  setPrivateMode : ∀ mode t, mode ≠ columnMode → seen (T.perform (.setPrivateMode mode) t) =
    { seen t with alternate := T.altScreen (T.perform (.setPrivateMode mode) t) }
  unsetPrivateMode : ∀ mode t, mode ≠ columnMode → seen (T.perform (.unsetPrivateMode mode) t) =
    { seen t with alternate := T.altScreen (T.perform (.unsetPrivateMode mode) t) }
  forwarded : ∀ name x t, seen (T.perform (.forwarded name x) t) = seen t
  offset_zero : ∀ a t, (seen t).offset = 0 → (seen (T.perform a t)).offset = 0
  -- A new size, and what is done before it.
  resize : ∀ rows columns t, 1 ≤ rows → 1 ≤ columns → seen (T.resize rows columns t) =
    { alternate := (seen t).alternate, lines := rows, top := 0, bottom := rows,
      history := (seen (T.resize rows columns t)).history,
      offset := (seen (T.resize rows columns t)).offset }
  resize_offset : ∀ rows columns t, (seen t).offset = 0 →
    (seen (T.resize rows columns t)).offset = 0
  clip : ∀ t, (seen (T.clip t)).alternate = (seen t).alternate ∧
    (seen (T.clip t)).offset = (seen t).offset
  swapAlt : ∀ t, (seen (T.swapAlt t)).alternate = !(seen t).alternate ∧
    (seen (T.swapAlt t)).offset = (seen t).offset
  putGrid : ∀ g t, (seen t).alternate = true → (seen (T.putGrid g t)).alternate = true ∧
    (seen (T.putGrid g t)).offset = (seen t).offset

end Agend.Scrollback
