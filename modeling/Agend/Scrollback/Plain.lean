import Agend.Scrollback.Counted

/-! A plain terminal and a plain parser, which read the sequences that a shell sends most. -/
namespace Agend.Scrollback

open Library.Scrollback

/-- Both screens; the rows over the normal one are as many as ever left it. -/
structure Plain where
  columns : Nat
  lines : List (List Char)
  saved : List (List Char) := []
  offset : Nat := 0
  other : List (List Char)
  alternate : Bool := false
  top : Nat := 0
  bottom : Nat
  line : Nat := 0
  column : Nat := 0
  deriving DecidableEq

namespace Plain

variable (t : Plain)

def new (rows columns : Nat) : Plain :=
  { columns := columns, lines := List.replicate rows [], other := List.replicate rows [],
    bottom := rows }

def visible : List (List Char) := if t.alternate then t.other else t.lines

def history : List (List Char) := keep scrollbackRows t.saved

def regionBottom : Nat := min t.bottom t.lines.length

def cellEmpty (line column : Nat) : Bool :=
  ((t.visible[line]?.getD [])[column]?).getD ' ' = ' '

def row (i : Int) : List Char :=
  if i < 0 then t.history[((t.history.length : Int) + i).toNat]?.getD []
  else t.visible[i.toNat]?.getD []

/-- The rows of a region go up. -/
def shift (top bottom n : Nat) (rows : List (List Char)) : List (List Char) :=
  (List.range rows.length).map fun i =>
    if top ≤ i ∧ i < bottom then if i + n < bottom then rows[i + n]?.getD [] else []
    else rows[i]?.getD []

def put (c : Char) (line column : Nat) (rows : List (List Char)) : List (List Char) :=
  rows.modify line fun r =>
    (r ++ List.replicate (column - r.length) ' ').take column ++ c :: r.drop (column + 1)

def edit (f : List (List Char) → List (List Char)) : Plain :=
  if t.alternate then { t with other := f t.other } else { t with lines := f t.lines }

def feed : Plain :=
  if t.line + 1 = t.regionBottom then t.edit (shift t.top t.regionBottom 1)
  else if t.line + 1 < t.lines.length then { t with line := t.line + 1 }
  else t

/-- The next character wraps. -/
def full : Bool := t.column = t.columns

def write (c : Char) : Plain := { t.edit (put c t.line t.column) with column := t.column + 1 }

def filled : Nat :=
  (((List.range t.lines.length).reverse.find? fun line =>
    (List.range t.columns).any fun column => !t.cellEmpty line column).map (· + 1)).getD 0

def feeds : Nat := if t.line + 1 = t.regionBottom ∧ t.top = 0 then 1 else 0

/-- How many rows leave the normal screen. -/
def moved (a : Action Unit) : Nat :=
  if t.alternate then 0
  else match a with
    | .linefeed | .newline => t.feeds
    | .input _ | .putTab _ => if t.full then t.feeds else 0
    | .scrollUp n => if t.top = 0 then min n t.regionBottom else 0
    | .deleteLines n => if t.line = 0 ∧ t.top = 0 then min n t.regionBottom else 0
    | .clearScreen .all => t.filled
    | _ => 0

/-- What an action writes on the screen. -/
def draw : Action Unit → Plain
  | .linefeed | .newline => t.feed
  | .input c => (if t.full then { t.feed with column := 0 } else t).write c
  | .putTab _ =>
    if t.full then { t.feed with column := 0 }
    else { t with column := min (t.columns - 1) ((t.column / 8 + 1) * 8) }
  | .scrollUp n => t.edit (shift t.top t.regionBottom n)
  | .deleteLines n =>
    if t.top ≤ t.line ∧ t.line < t.regionBottom then t.edit (shift t.line t.regionBottom n) else t
  | .clearScreen .all => t.edit fun rows => rows.map fun _ => []
  | _ => t

def scroll (a : Action Unit) : Plain :=
  let saved := t.saved ++ t.lines.take (t.moved a)
  { t.draw a with
    saved := saved,
    offset := if t.offset = 0 then 0
      else min (t.offset + t.moved a) (keep scrollbackRows saved).length }

def privateMode (on : Bool) (mode : Nat) : Plain :=
  if mode = columnMode then
    { (t.edit fun rows => rows.map fun _ => []) with
      top := 0, bottom := t.lines.length, line := 0, column := 0 }
  else if mode = 1049 ∧ t.alternate = !on then
    { t with alternate := on, other := t.other.map fun _ => [] }
  else t

def perform (a : Action Unit) (t : Plain) : Plain :=
  match a with
  | .clearScreen .saved => if t.alternate then t else { t with saved := [], offset := 0 }
  | .clearScreen .below | .clearScreen .above => t
  | .resetState => new t.lines.length t.columns
  | .setScrollingRegion top bottom =>
    if top < bottom.getD t.lines.length then
      { t with
        top := min (top - 1) t.lines.length,
        bottom := min (bottom.getD t.lines.length) t.lines.length, line := 0, column := 0 }
    else t
  | .setPrivateMode mode => t.privateMode true mode
  | .unsetPrivateMode mode => t.privateMode false mode
  | .forwarded .carriageReturn _ => { t with column := 0 }
  | .forwarded _ _ => t
  | a => t.scroll a

def scrollDisplay (s : Scroll) (t : Plain) : Plain :=
  if t.alternate then t
  else
    { t with offset := match s with
        | .delta rows => min ((t.offset : Int) + rows).toNat t.history.length
        | .bottom => 0 }

/-- Rows over the cursor leave a screen that gets smaller, and come back to one that grows. -/
def resize (rows columns : Nat) (t : Plain) : Plain :=
  let out := t.line + 1 - rows
  let back := min t.saved.length (rows - t.lines.length)
  let all := t.saved.drop (t.saved.length - back) ++ t.lines
  { t with
    columns := columns,
    saved := t.saved.take (t.saved.length - back) ++ t.lines.take out,
    lines := (List.range rows).map fun i => all[i + out]?.getD [],
    other := (List.range rows).map fun i => t.other[i]?.getD [],
    top := 0, bottom := rows, line := t.line + back - out,
    offset := if t.offset = 0 then 0 else min t.offset t.history.length }

end Plain

def plain : Terminal Plain Unit (List Char) where
  new := Plain.new
  perform := Plain.perform
  scrollDisplay := Plain.scrollDisplay
  resize := Plain.resize
  swapAlt t := { t with alternate := !t.alternate }
  clip t := t
  putGrid _ t := t
  altScreen := Plain.alternate
  screenLines t := t.lines.length
  columns := Plain.columns
  historySize t := if t.alternate then 0 else t.history.length
  displayOffset t := if t.alternate then 0 else t.offset
  cursorLine := Plain.line
  cursorColumn := Plain.column
  cursorShown _ := true
  cellEmpty := Plain.cellEmpty
  row := Plain.row

namespace Plain

def seen (t : Plain) : Seen (List Char) where
  alternate := t.alternate
  lines := t.lines.length
  top := t.top
  bottom := t.regionBottom
  history := t.history
  offset := t.offset

variable (t : Plain)

theorem length_shift (top bottom n : Nat) (rows : List (List Char)) :
    (shift top bottom n rows).length = rows.length := by
  rw [shift, List.length_map, List.length_range]

theorem length_put (c : Char) (line column : Nat) (rows : List (List Char)) :
    (put c line column rows).length = rows.length :=
  List.length_modify ..

/-- Nothing that is seen changes when something is written on the screen. -/
theorem seen_edit {f : List (List Char) → List (List Char)}
    (hf : ∀ rows, (f rows).length = rows.length) : (t.edit f).seen = t.seen := by
  unfold edit
  split
  · rfl
  · simp only [seen, regionBottom, history, hf]

theorem seen_feed : t.feed.seen = t.seen := by
  unfold feed
  split
  · exact seen_edit t (length_shift _ _ _)
  · split <;> rfl

theorem seen_write (c : Char) : (t.write c).seen = t.seen :=
  seen_edit t (length_put c _ _)

theorem seen_draw (a : Action Unit) : (t.draw a).seen = t.seen := by
  cases a with
  | input c =>
    unfold draw
    dsimp only
    rw [seen_write]
    split
    · exact seen_feed t
    · rfl
  | putTab count =>
    unfold draw
    dsimp only
    split
    · exact seen_feed t
    · rfl
  | linefeed => exact seen_feed t
  | newline => exact seen_feed t
  | scrollUp n => exact seen_edit t (length_shift _ _ _)
  | deleteLines n =>
    unfold draw
    dsimp only
    split
    · exact seen_edit t (length_shift _ _ _)
    · rfl
  | clearScreen mode =>
    cases mode with
    | all => exact seen_edit t fun rows => List.length_map ..
    | _ => rfl
  | _ => rfl

theorem regionBottom_le : t.regionBottom ≤ t.lines.length := Nat.min_le_right _ _

theorem feeds_le : t.feeds ≤ 1 ∧ (t.top ≠ 0 → t.feeds = 0) ∧ t.feeds ≤ t.lines.length := by
  have := t.regionBottom_le
  unfold feeds
  split
  case isTrue h => exact ⟨Nat.le_refl _, fun hne => absurd h.2 hne, by omega⟩
  case isFalse => exact ⟨Nat.zero_le _, fun _ => rfl, Nat.zero_le _⟩

theorem moved_le (a : Action Unit) : t.moved a ≤ t.lines.length := by
  have hregion := t.regionBottom_le
  have hfeeds := t.feeds_le.2.2
  have hmin (n : Nat) : min n t.regionBottom ≤ t.lines.length := by omega
  unfold moved
  by_cases halternate : t.alternate = true
  · rw [if_pos halternate]
    exact Nat.zero_le _
  · rw [if_neg halternate]
    cases a with
    | linefeed => exact hfeeds
    | newline => exact hfeeds
    | input c =>
      dsimp only
      split
      · exact hfeeds
      · exact Nat.zero_le _
    | putTab count =>
      dsimp only
      split
      · exact hfeeds
      · exact Nat.zero_le _
    | scrollUp n =>
      dsimp only
      split
      · exact hmin n
      · exact Nat.zero_le _
    | deleteLines n =>
      dsimp only
      split
      · exact hmin n
      · exact Nat.zero_le _
    | clearScreen mode =>
      cases mode with
      | all => exact (find?_reverse_range _ _).1
      | _ => exact Nat.zero_le _
    | _ => exact Nat.zero_le _

theorem moved_single {a : Action Unit} (ha : a.single = true) :
    t.moved a ≤ 1 ∧ (t.top ≠ 0 → t.moved a = 0) := by
  obtain ⟨hle, hno, -⟩ := t.feeds_le
  unfold moved
  split
  · exact ⟨Nat.zero_le _, fun _ => rfl⟩
  · cases a with
    | input c =>
      dsimp only
      split
      · exact ⟨hle, hno⟩
      · exact ⟨Nat.zero_le _, fun _ => rfl⟩
    | putTab count =>
      dsimp only
      split
      · exact ⟨hle, hno⟩
      · exact ⟨Nat.zero_le _, fun _ => rfl⟩
    | linefeed => exact ⟨hle, hno⟩
    | newline => exact ⟨hle, hno⟩
    | _ => cases ha

theorem moved_alternate {a : Action Unit} (h : t.alternate = true) : t.moved a = 0 := by
  unfold moved
  rw [if_pos h]

theorem row_history {i : Nat} (hi : i < t.history.length) :
    t.history[i]? = some (t.row ((i : Int) - t.history.length)) := by
  have hneg : (i : Int) - t.history.length < 0 := by omega
  have hsame : ((t.history.length : Int) + ((i : Int) - t.history.length)).toNat = i := by omega
  rw [row, if_pos hneg, hsame, List.getElem?_eq_getElem hi]
  rfl

theorem topRows_eq {n : Nat} (h : t.alternate = false) (hn : n ≤ t.lines.length) :
    plain.topRows t n = t.lines.take n := by
  refine List.ext_getElem? fun i => ?_
  rw [Terminal.topRows, List.getElem?_map, List.getElem?_take]
  by_cases hi : i < n
  · have hrow : plain.row t i = t.lines[i]?.getD [] := by
      change t.row i = _
      rw [row, if_neg (by omega), visible, h, Int.toNat_natCast]
      rfl
    rw [List.getElem?_range hi, if_pos hi, Option.map_some, hrow,
      List.getElem?_eq_getElem (by omega)]
    rfl
  · rw [if_neg hi, List.getElem?_eq_none (by rw [List.length_range]; omega)]
    rfl

theorem perform_scrolls {a : Action Unit} (ha : a.scrolls = true) :
    perform a t = t.scroll a := by
  cases a with
  | clearScreen mode =>
    cases mode with
    | all => rfl
    | _ => cases ha
  | _ => first | rfl | cases ha

theorem seen_scroll (a : Action Unit) : (t.scroll a).seen =
    { t.seen with
      history := keep scrollbackRows (t.history ++ plain.topRows t (t.moved a)),
      offset := (t.scroll a).offset } := by
  have hdraw := t.seen_draw a
  have hrows : plain.topRows t (t.moved a) = t.lines.take (t.moved a) := by
    cases halternate : t.alternate with
    | false => exact t.topRows_eq halternate (t.moved_le a)
    | true =>
      rw [t.moved_alternate halternate]
      rfl
  have hseen : (t.scroll a).seen = { (t.draw a).seen with
      history := keep scrollbackRows (t.saved ++ t.lines.take (t.moved a)),
      offset := (t.scroll a).offset } := rfl
  rw [hseen, hdraw, hrows, history, keep_keep_append]

theorem seen_privateMode {on : Bool} {mode : Nat} (hmode : mode ≠ columnMode) :
    (t.privateMode on mode).seen =
      { t.seen with alternate := (t.privateMode on mode).alternate } := by
  unfold privateMode
  rw [if_neg hmode]
  split <;> simp only [seen, regionBottom, history]

theorem seen_columns (on : Bool) : (t.privateMode on columnMode).seen =
    { t.seen with top := 0, bottom := t.lines.length } := by
  have hedit : (t.edit fun rows => rows.map fun _ => []).seen = t.seen :=
    t.seen_edit fun rows => List.length_map ..
  have hlines : (t.edit fun rows => rows.map fun _ => []).lines.length = t.lines.length :=
    congrArg Seen.lines hedit
  have hseen : (t.privateMode on columnMode).seen =
      { (t.edit fun rows => rows.map fun _ => []).seen with
        top := 0,
        bottom :=
          min t.lines.length (t.edit fun rows => rows.map fun _ => []).lines.length } := by
    unfold privateMode
    rw [if_pos rfl]
    rfl
  rw [hseen, hedit, hlines, Nat.min_self]

end Plain

namespace Plain

variable (t : Plain)

theorem scrollDisplay_eq (s : Scroll) : ∃ offset, scrollDisplay s t = { t with offset := offset } := by
  unfold scrollDisplay
  split
  · exact ⟨t.offset, rfl⟩
  · exact ⟨_, rfl⟩

theorem seen_scrollDisplay (s : Scroll) : (scrollDisplay s t).seen =
    if t.alternate then t.seen else
      { t.seen with offset := match s with
          | .delta rows => min ((t.offset : Int) + rows).toNat t.history.length
          | .bottom => 0 } := by
  unfold scrollDisplay
  split
  · rfl
  · cases s <;> rfl

/-- The plain terminal counts the filled lines from below. -/
theorem filled_spec :
    (∀ line, t.filled ≤ line → line < t.lines.length →
      ∀ column, column < t.columns → t.cellEmpty line column = true) ∧
    (0 < t.filled → ∃ column, column < t.columns ∧ t.cellEmpty (t.filled - 1) column = false) := by
  obtain ⟨-, hempty, hlast⟩ := find?_reverse_range (fun line =>
    (List.range t.columns).any fun column => !t.cellEmpty line column) t.lines.length
  refine ⟨fun line hle hlt column hcolumn => ?_, fun hpos => ?_⟩
  · have hnone := List.any_eq_false.mp (hempty line hle hlt) column (List.mem_range.mpr hcolumn)
    simpa using hnone
  · obtain ⟨column, hcolumn, hfull⟩ := List.any_eq_true.mp (hlast hpos)
    change (!t.cellEmpty (t.filled - 1) column) = true at hfull
    exact ⟨column, List.mem_range.mp hcolumn, by simpa using hfull⟩

theorem moved_other {a : Action Unit} (ha : a.scrolls = false) : t.moved a = 0 := by
  unfold moved
  split
  · rfl
  · cases a with
    | clearScreen mode =>
      cases mode with
      | all => cases ha
      | _ => rfl
    | _ => first | rfl | cases ha

theorem scroll_offset (a : Action Unit) : (t.scroll a).offset =
    if t.offset = 0 then 0 else min (t.offset + t.moved a) (t.scroll a).history.length := rfl

theorem privateMode_offset (on : Bool) (mode : Nat) : (t.privateMode on mode).offset = t.offset := by
  unfold privateMode
  split
  · exact congrArg Seen.offset (t.seen_edit fun rows => List.length_map ..)
  · split <;> rfl

theorem seen_forwarded (name : Forwarded) : (perform (.forwarded name ()) t).seen = t.seen := by
  cases name <;> rfl

theorem perform_offset (a : Action Unit) (h : t.offset = 0) : (perform a t).offset = 0 := by
  have hscroll : ∀ a, (t.scroll a).offset = 0 := fun a => by rw [scroll_offset, if_pos h]
  cases a with
  | clearScreen mode =>
    cases mode with
    | all => exact hscroll _
    | saved =>
      simp only [perform]
      split
      · exact h
      · rfl
    | _ => exact h
  | resetState => rfl
  | setScrollingRegion top bottom =>
    simp only [perform]
    split <;> exact h
  | setPrivateMode mode => exact (t.privateMode_offset true mode).trans h
  | unsetPrivateMode mode => exact (t.privateMode_offset false mode).trans h
  | forwarded name x => exact (congrArg Seen.offset (t.seen_forwarded name)).trans h
  | _ => exact hscroll _

theorem seen_resize (rows columns : Nat) : (resize rows columns t).seen =
    { alternate := t.alternate, lines := rows, top := 0, bottom := rows,
      history := (resize rows columns t).history, offset := (resize rows columns t).offset } := by
  have hlines : (resize rows columns t).lines.length = rows := by
    simp only [resize, List.length_map, List.length_range]
  have hseen : (resize rows columns t).seen =
      { alternate := t.alternate, lines := (resize rows columns t).lines.length, top := 0,
        bottom := min rows (resize rows columns t).lines.length,
        history := (resize rows columns t).history,
        offset := (resize rows columns t).offset } := rfl
  rw [hseen, hlines, Nat.min_self]

theorem seen_new (rows columns : Nat) : (new rows columns).seen =
    { alternate := false, lines := rows, top := 0, bottom := rows, history := [], offset := 0 } := by
  have hhistory : (new rows columns).history = [] := keep_of_length_le (Nat.zero_le _)
  have hlines : (new rows columns).lines.length = rows := List.length_replicate
  have hseen : (new rows columns).seen =
      { alternate := false, lines := (new rows columns).lines.length, top := 0,
        bottom := min rows (new rows columns).lines.length,
        history := (new rows columns).history, offset := 0 } := rfl
  rw [hseen, hhistory, hlines, Nat.min_self]

theorem seen_setScrollingRegion (top : Nat) (bottom : Option Nat) :
    (perform (.setScrollingRegion top bottom) t).seen =
      if top < bottom.getD t.lines.length then
        { t.seen with
          top := min (top - 1) t.lines.length,
          bottom := min (bottom.getD t.lines.length) t.lines.length }
      else t.seen := by
  simp only [perform]
  split
  · simp only [seen, regionBottom, history, Nat.min_assoc, Nat.min_self]
  · rfl

end Plain

/-- The plain terminal does what is known of the real one. -/
def plainAlacritty : Alacritty plain where
  seen := Plain.seen
  moved a t := t.moved a
  altScreen _ := rfl
  screenLines _ := rfl
  historySize _ := rfl
  displayOffset t h := if_neg (by simpa [Plain.seen] using h)
  row t _ i hi := t.row_history hi
  history_le t := by
    change t.history.length ≤ _
    rw [Plain.history, length_keep]
    exact Nat.min_le_right _ _
  new rows columns _ _ := Plain.seen_new rows columns
  scrollDisplay s t := t.seen_scrollDisplay s
  topRows_scrollDisplay s t n _ := by
    obtain ⟨offset, heq⟩ := t.scrollDisplay_eq s
    change plain.topRows (Plain.scrollDisplay s t) n = _
    rw [heq]
    rfl
  moved_scrollDisplay a s t := by
    obtain ⟨offset, heq⟩ := t.scrollDisplay_eq s
    change (Plain.scrollDisplay s t).moved a = _
    rw [heq]
    rfl
  moved_le a t := t.moved_le a
  moved_alternate a t h := t.moved_alternate h
  moved_single a t ha := t.moved_single ha
  moved_scrollUp n t h := if_neg (by simpa [Plain.seen] using h)
  moved_deleteLines n t h := if_neg (by simpa [Plain.seen] using h)
  moved_clear t h := by
    have hfilled : t.moved (.clearScreen .all) = t.filled := if_neg (by simpa [Plain.seen] using h)
    rw [hfilled]
    exact t.filled_spec
  moved_other a t ha := t.moved_other ha
  scrolled a t ha := by
    change (Plain.perform a t).seen = { t.seen with
      history := keep scrollbackRows (t.history ++ plain.topRows t (t.moved a)),
      offset := (Plain.perform a t).offset }
    rw [t.perform_scrolls ha]
    exact t.seen_scroll a
  single_offset a t ha _ := by
    change (Plain.perform a t).offset =
      if t.offset = 0 then 0 else min (t.offset + t.moved a) (Plain.perform a t).history.length
    rw [t.perform_scrolls (Action.scrolls_of_single ha)]
    exact t.scroll_offset a
  clearSaved t := by
    have hempty : keep scrollbackRows ([] : List (List Char)) = [] :=
      keep_of_length_le (Nat.zero_le _)
    simp only [plain, Plain.perform]
    split
    case isTrue h => simp [Plain.seen, h]
    case isFalse h => simp [Plain.seen, Plain.history, Plain.regionBottom, h, hempty]
  clearPart mode t h := by
    rcases h with rfl | rfl <;> rfl
  resetState t := by
    have hnew := Plain.seen_new t.lines.length t.columns
    change (Plain.new t.lines.length t.columns).seen =
      { alternate := false, lines := t.lines.length, top := 0, bottom := t.lines.length,
        history := (Plain.new t.lines.length t.columns).seen.history,
        offset := (Plain.new t.lines.length t.columns).seen.offset }
    rw [hnew]
  setScrollingRegion top bottom t _ := t.seen_setScrollingRegion top bottom
  columnSwitch a t ha := by
    cases a with
    | setPrivateMode mode =>
      cases of_decide_eq_true ha
      exact t.seen_columns true
    | unsetPrivateMode mode =>
      cases of_decide_eq_true ha
      exact t.seen_columns false
    | _ => cases ha
  setPrivateMode mode t h := t.seen_privateMode h
  unsetPrivateMode mode t h := t.seen_privateMode h
  forwarded name _ t := t.seen_forwarded name
  offset_zero a t h := t.perform_offset a h
  resize rows columns t _ _ := t.seen_resize rows columns
  resize_offset rows columns t h := if_pos h
  clip t := ⟨rfl, rfl⟩
  swapAlt t := ⟨rfl, rfl⟩
  putGrid g t h := ⟨h, rfl⟩

/-- What the plain parser has of a control sequence. -/
inductive PlainParser where
  | ground
  | escape
  | csi (text : List UInt8)
  deriving DecidableEq

namespace PlainParser

def number (text : List UInt8) : Nat := text.foldl (fun n b => n * 10 + (b.toNat - 48)) 0

/-- A control sequence: `?` goes before a private mode, `;` between two numbers. -/
def sequence (text : List UInt8) (final : UInt8) : List (Action Unit) :=
  let numbers := ((text.dropWhile (· = 63)).splitOn 59).map number
  let first := numbers.headD 0
  match Char.ofNat final.toNat with
  | 'h' => if text.head? = some 63 then [.setPrivateMode first] else []
  | 'l' => if text.head? = some 63 then [.unsetPrivateMode first] else []
  | 'r' => [.setScrollingRegion (max 1 first) (numbers[1]?.filter (0 < ·))]
  | 'S' => [.scrollUp (max 1 first)]
  | 'M' => [.deleteLines (max 1 first)]
  | 'J' => if first = 2 then [.clearScreen .all] else if first = 3 then [.clearScreen .saved] else []
  | _ => []

def next : PlainParser → UInt8 → PlainParser × List (Action Unit)
  | .ground, b =>
    match Char.ofNat b.toNat with
    | '\x1b' => (.escape, [])
    | '\n' => (.ground, [.linefeed])
    | '\x0d' => (.ground, [.forwarded .carriageReturn ()])
    | c => (.ground, [.input c])
  | .escape, b =>
    match Char.ofNat b.toNat with
    | '[' => (.csi [], [])
    | 'c' => (.ground, [.resetState])
    | _ => (.ground, [])
  | .csi text, b =>
    if 64 ≤ b then (.ground, sequence text b) else (.csi (text ++ [b]), [])

theorem sequence_emits (text : List UInt8) (final : UInt8) :
    ∀ a ∈ sequence text final, a.Emitted := by
  unfold sequence
  intro a ha
  dsimp only at ha
  split at ha
  · split at ha
    · cases List.mem_singleton.mp ha
      trivial
    · cases ha
  · split at ha
    · cases List.mem_singleton.mp ha
      trivial
    · cases ha
  · cases List.mem_singleton.mp ha
    exact Nat.le_max_left _ _
  · cases List.mem_singleton.mp ha
    trivial
  · cases List.mem_singleton.mp ha
    trivial
  · split at ha
    · cases List.mem_singleton.mp ha
      trivial
    · split at ha
      · cases List.mem_singleton.mp ha
        trivial
      · cases ha
  · cases ha

theorem next_emits (p : PlainParser) (b : UInt8) : ∀ a ∈ (p.next b).2, a.Emitted := by
  intro a ha
  cases p with
  | ground =>
    simp only [next] at ha
    split at ha
    · cases ha
    all_goals
      cases List.mem_singleton.mp ha
      trivial
  | escape =>
    simp only [next] at ha
    split at ha
    · cases ha
    · cases List.mem_singleton.mp ha
      trivial
    · cases ha
  | csi text =>
    simp only [next] at ha
    split at ha
    · exact sequence_emits text b a ha
    · cases ha

end PlainParser

def plainParser : Parser PlainParser Unit where
  new := .ground
  advance p bytes := bytes.foldl
    (fun (p, actions) b => ((p.next b).1, actions ++ (p.next b).2)) (p, [])

theorem plainParser_emits : plainParser.Emits := by
  intro p bytes
  have hstart : ∀ a ∈ ([] : List (Action Unit)), a.Emitted := nofun
  unfold plainParser
  dsimp only
  generalize ([] : List (Action Unit)) = actions at hstart
  induction bytes generalizing p actions with
  | nil => exact hstart
  | cons b bytes ih =>
    refine ih (p.next b).1 _ fun a ha => ?_
    rcases List.mem_append.mp ha with hold | hnew
    · exact hstart a hold
    · exact p.next_emits b a hnew

end Agend.Scrollback
