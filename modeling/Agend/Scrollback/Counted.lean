import Agend.Scrollback.Tracked

/-! What one parser action does to the row numbers. -/
namespace Agend.Scrollback

open Library.Scrollback

variable {τ α ρ : Type} {T : Terminal τ α ρ} {A : Alacritty T} {x y : Tracked τ} {a : Action α}
  {wide : Char → Bool}

theorem find?_reverse_range (p : Nat → Bool) (n : Nat) :
    let m := (((List.range n).reverse.find? p).map (· + 1)).getD 0
    m ≤ n ∧ (∀ i, m ≤ i → i < n → p i = false) ∧ (0 < m → p (m - 1) = true) := by
  induction n with
  | zero => exact ⟨Nat.le_refl _, fun i _ hi => absurd hi (Nat.not_lt_zero _), nofun⟩
  | succ n ih =>
    rw [List.range_succ, List.reverse_append, List.reverse_singleton, List.singleton_append,
      List.find?_cons]
    cases hp : p n with
    | true =>
      exact ⟨Nat.le_refl _, fun i hle hlt => absurd hlt (Nat.not_lt.mpr hle), fun _ => hp⟩
    | false =>
      obtain ⟨hle, hempty, hlast⟩ := ih
      refine ⟨Nat.le_succ_of_le hle, fun i hi hlt => ?_, hlast⟩
      rcases Nat.lt_succ_iff_lt_or_eq.mp hlt with hlt | rfl
      · exact hempty i hi hlt
      · exact hp

/-- The adapter counts the filled lines as the terminal does. -/
theorem filledLines_eq (A : Alacritty T) {t : τ} (hnormal : (A.seen t).alternate = false) :
    (filledLines T t).getD 0 = A.moved (.clearScreen .all) t := by
  have hfilled : (filledLines T t).getD 0 ≤ (A.seen t).lines ∧
      (∀ line, (filledLines T t).getD 0 ≤ line → line < (A.seen t).lines →
        ((List.range (T.columns t)).any fun column => !T.cellEmpty t line column) = false) ∧
      (0 < (filledLines T t).getD 0 → ((List.range (T.columns t)).any fun column =>
        !T.cellEmpty t ((filledLines T t).getD 0 - 1) column) = true) := by
    rw [← A.screenLines]
    exact find?_reverse_range _ _
  obtain ⟨hle, hempty, hlast⟩ := hfilled
  obtain ⟨hempty', hlast'⟩ := A.moved_clear t hnormal
  have hle' := A.moved_le (.clearScreen .all) t
  rcases Nat.lt_trichotomy ((filledLines T t).getD 0) (A.moved (.clearScreen .all) t)
    with hlt | heq | hgt
  · obtain ⟨column, hcolumn, hfull⟩ := hlast' (by omega)
    have hdark := List.any_eq_false.mp
      (hempty (A.moved (.clearScreen .all) t - 1) (by omega) (by omega))
      column (List.mem_range.mpr hcolumn)
    simp [hfull] at hdark
  · exact heq
  · obtain ⟨column, hcolumn, hfull⟩ := List.any_eq_true.mp (hlast (by omega))
    rw [hempty' _ (by omega) (by omega) column (List.mem_range.mp hcolumn)] at hfull
    cases hfull

/-- The adapter's copy of the scrolling region is the terminal's, and nothing is left over from
an action or from a resize of the alternate screen. -/
structure Agree (A : Alacritty T) (x : Tracked τ) : Prop where
  lines : 1 ≤ (A.seen x.term).lines
  top : x.history.top = 0 ↔ (A.seen x.term).top = 0
  bottom : x.history.bottom = (A.seen x.term).bottom
  offset : (A.seen x.term).offset = 0
  normal : (A.seen x.term).alternate = false → x.history.rebaseOnNormal = false
  founded : x.history.rebaseOnNormal = false →
    (A.seen x.term).history.length ≤ x.history.liveTop

/-- Some rows went into the history, or the history was cleared; every row has the number that
it had. -/
structure Moves (A : Alacritty T) (x y : Tracked τ) (rows : List ρ) : Prop where
  liveTop : y.history.liveTop = x.history.liveTop + rows.length
  lines : (A.seen y.term).lines = (A.seen x.term).lines
  history : (A.seen y.term).history = keep scrollbackRows ((A.seen x.term).history ++ rows) ∨
    rows = [] ∧ (A.seen y.term).history = []
  pending : y.history.rebaseOnNormal = x.history.rebaseOnNormal

/-- The rows got new numbers, above the ones of the screen. -/
structure Rebased (A : Alacritty T) (x y : Tracked τ) : Prop where
  liveTop : y.history.liveTop =
    x.history.liveTop + ((A.seen y.term).lines + (A.seen y.term).history.length)
  pending : y.history.rebaseOnNormal = false
  normal : (A.seen y.term).alternate = false

/-- Rows get new numbers when the terminal is reset, or when it is back on the normal screen after
a resize. -/
def Tracked.renumbers (T : Terminal τ α ρ) (x : Tracked τ) (a : Action α) : Prop :=
  a = .resetState ∨
    x.history.rebaseOnNormal = true ∧ T.altScreen (T.perform a x.term) = false

/-- The columns are switched while the scrolling region is the whole screen. -/
def Tracked.Whole (T : Terminal τ α ρ) (x : Tracked τ) (a : Action α) : Prop :=
  a.switchesColumns = true → x.history.top = 0 ∧ x.history.bottom = T.screenLines x.term

section

variable {e : Bool} {ex : Option Nat} {f : τ → τ}

/-- A higher display shows the same terminal. -/
theorem seen_watched : A.seen (x.watched T e ex) =
    { A.seen x.term with offset := (A.seen (x.watched T e ex)).offset } := by
  unfold Tracked.watched
  split
  · rw [A.scrollDisplay]
    split <;> rfl
  · rfl

theorem moved_watched : A.moved a (x.watched T e ex) = A.moved a x.term := by
  unfold Tracked.watched
  split
  · exact A.moved_scrollDisplay _ _ _
  · rfl

theorem topRows_watched : T.topRows (x.watched T e ex) (A.moved a x.term) =
    T.topRows x.term (A.moved a x.term) := by
  unfold Tracked.watched
  split
  · exact A.topRows_scrollDisplay _ _ _ (A.moved_le _ _)
  · rfl

theorem normal_eq (A : Alacritty T)
    (h : (A.seen x.term).alternate = false → x.history.rebaseOnNormal = false) :
    x.normal T = x := by
  unfold Tracked.normal
  rw [if_neg]
  rintro ⟨hpending, hnormal⟩
  rw [A.altScreen] at hnormal
  rw [h hnormal] at hpending
  cases hpending

/-- After an action the display is at the bottom again. -/
theorem seen_bottom {t : τ} (h : (A.seen t).alternate = true → (A.seen t).offset = 0) :
    A.seen (T.scrollDisplay .bottom t) = { A.seen t with offset := 0 } := by
  rw [A.scrollDisplay]
  split
  case isTrue halternate => rw [← h halternate]
  case isFalse => rfl

theorem apply_eq (hx : Agree A x)
    (hf : (A.seen (f (x.watched T e ex))).alternate = (A.seen x.term).alternate) :
    x.apply T e ex f =
      { term := T.scrollDisplay .bottom (f (x.watched T e ex)),
        history := { x.history with
          liveTop := x.history.liveTop + x.counted T e ex (f (x.watched T e ex)) } } := by
  refine normal_eq A fun hnormal => hx.normal ?_
  rw [← hf]
  rw [A.scrollDisplay] at hnormal
  split at hnormal <;> exact hnormal

/-- In the alternate screen the display stays at the bottom. -/
theorem watched_alternate (A : Alacritty T) (h : (A.seen x.term).alternate = true) :
    x.watched T e ex = x.term := by
  unfold Tracked.watched
  rw [A.altScreen, h]
  simp

theorem counted_alternate (A : Alacritty T) {t : τ} (h : (A.seen x.term).alternate = true) :
    x.counted T e ex t = 0 := by
  unfold Tracked.counted
  rw [A.altScreen, h]
  simp

/-- When the rows that leave the screen are counted, they keep their numbers. -/
theorem apply_scrolls (hx : Agree A x) (ha : a.scrolls = true)
    (hcount : (A.seen x.term).alternate = false →
      x.counted T e ex (T.perform a (x.watched T e ex)) = A.moved a x.term) :
    Agree A (x.apply T e ex (T.perform a)) ∧
      Moves A x (x.apply T e ex (T.perform a)) (T.topRows x.term (A.moved a x.term)) := by
  have hperform := A.scrolled a (x.watched T e ex) ha
  rw [seen_watched, moved_watched, topRows_watched] at hperform
  have hcounted : x.counted T e ex (T.perform a (x.watched T e ex)) = A.moved a x.term := by
    cases halternate : (A.seen x.term).alternate with
    | false => exact hcount halternate
    | true => rw [counted_alternate A halternate, A.moved_alternate _ _ halternate]
  have hscreen : (A.seen (T.perform a (x.watched T e ex))).alternate =
      (A.seen x.term).alternate := by rw [hperform]
  have hoffset : (A.seen (T.perform a (x.watched T e ex))).alternate = true →
      (A.seen (T.perform a (x.watched T e ex))).offset = 0 := by
    intro halternate
    rw [watched_alternate A (hscreen ▸ halternate)]
    exact A.offset_zero _ _ hx.offset
  rw [apply_eq hx hscreen, hcounted]
  have hseen := seen_bottom hoffset
  rw [hperform] at hseen
  have hlength : (T.topRows x.term (A.moved a x.term)).length = A.moved a x.term := by
    rw [Terminal.topRows, List.length_map, List.length_range]
  constructor
  · refine ⟨?_, ?_, ?_, ?_, ?_, fun hpending => ?_⟩ <;> rw [hseen]
    · exact hx.lines
    · exact hx.top
    · exact hx.bottom
    · exact hx.normal
    · have := hx.founded hpending
      dsimp only
      rw [length_keep, List.length_append, hlength]
      omega
  · exact ⟨by rw [hlength], by rw [hseen], .inl (by rw [hseen]), rfl⟩

end

/-- One line at most is scrolled: the display has gone up by as many, or the history is as long. -/
theorem single_counts (ha : a.single = true) (hscrolls : a.scrolls = true) (hx : Agree A x)
    (hnormal : (A.seen x.term).alternate = false) :
    x.counted T (x.history.top = 0) none
      (T.perform a (x.watched T (x.history.top = 0) none)) = A.moved a x.term := by
  obtain ⟨hle, hno⟩ := A.moved_single a x.term ha
  have hscreen : T.altScreen x.term = false := by rw [A.altScreen, hnormal]
  have hsize : T.historySize x.term = (A.seen x.term).history.length := by
    rw [A.historySize, hnormal]
    rfl
  unfold Tracked.counted
  by_cases htop : x.history.top = 0
  · simp only [hscreen, htop, decide_true, and_self, if_true, Option.getD_none]
    have hperform := A.scrolled a (x.watched T true none) hscrolls
    rw [seen_watched, moved_watched, topRows_watched] at hperform
    have hafter : (A.seen (T.perform a (x.watched T true none))).alternate = false := by
      rw [hperform]
      exact hnormal
    have hlength : (A.seen (T.perform a (x.watched T true none))).history.length =
        min ((A.seen x.term).history.length + A.moved a x.term) scrollbackRows := by
      rw [hperform]
      dsimp only
      rw [length_keep, List.length_append, Terminal.topRows, List.length_map, List.length_range]
    have hmost := A.history_le x.term
    have hrows : scrollbackRows = 1000 := rfl
    split
    case isTrue hempty =>
      rw [A.historySize, hafter, if_neg Bool.false_ne_true, hlength]
      omega
    case isFalse hsome =>
      have hup : (A.seen (x.watched T true none)).offset = 1 := by
        unfold Tracked.watched
        rw [if_pos ⟨hscreen, rfl, rfl, Nat.pos_of_ne_zero hsome⟩, A.scrollDisplay, hnormal,
          if_neg Bool.false_ne_true]
        dsimp only
        rw [hx.offset]
        omega
      have hstart : (A.seen (x.watched T true none)).alternate = false := by
        rw [seen_watched]
        exact hnormal
      rw [A.displayOffset _ hafter, A.single_offset _ _ ha hstart, hup, if_neg Nat.one_ne_zero,
        moved_watched, hlength]
      omega
  · simp only [htop, decide_false, Bool.false_eq_true, and_false, if_false]
    exact (hno fun h => htop (hx.top.mpr h)).symm

theorem Action.scrolls_of_single (ha : a.single = true) : a.scrolls = true := by
  cases a <;> first | rfl | cases ha

/-- Nothing that the numbers depend on changes, or the history is cleared. -/
theorem apply_idle (hx : Agree A x)
    (hscreen : (A.seen (T.perform a x.term)).alternate = (A.seen x.term).alternate)
    (hlines : (A.seen (T.perform a x.term)).lines = (A.seen x.term).lines)
    (htop : (A.seen (T.perform a x.term)).top = (A.seen x.term).top)
    (hbottom : (A.seen (T.perform a x.term)).bottom = (A.seen x.term).bottom)
    (hhistory : (A.seen (T.perform a x.term)).history = (A.seen x.term).history ∨
      (A.seen (T.perform a x.term)).history = []) :
    Agree A (x.apply T false none (T.perform a)) ∧
      Moves A x (x.apply T false none (T.perform a)) [] := by
  have hwatched : x.watched T false none = x.term := by
    unfold Tracked.watched
    simp
  have hcounted : ∀ t, x.counted T false none t = 0 := by
    intro t
    unfold Tracked.counted
    simp
  have hseen := seen_bottom (T := T) fun _ => A.offset_zero a x.term hx.offset
  rw [apply_eq hx (by rw [hwatched, hscreen]), hwatched, hcounted]
  constructor
  · refine ⟨?_, ?_, ?_, ?_, ?_, fun hpending => ?_⟩ <;> rw [hseen]
    · exact hlines ▸ hx.lines
    · exact htop ▸ hx.top
    · exact hbottom ▸ hx.bottom
    · exact fun hnormal => hx.normal (hscreen ▸ hnormal)
    · have hfounded := hx.founded hpending
      rcases hhistory with hsame | hnone
      · exact hsame ▸ hfounded
      · dsimp only
        rw [hnone]
        exact Nat.zero_le _
  · refine ⟨rfl, by rw [hseen]; exact hlines, ?_, rfl⟩
    rw [hseen, List.append_nil, keep_of_length_le (A.history_le _)]
    exact hhistory.imp_right fun hnone => ⟨rfl, hnone⟩

/-- The outcome of an action that is handed on: the rows keep their numbers, or the terminal is back
on the normal screen after a resize and all of them get new ones. -/
theorem forward_spec (hx : Agree A x)
    (hlines : (A.seen (T.perform a x.term)).lines = (A.seen x.term).lines)
    (htop : x.history.top = 0 ↔ (A.seen (T.perform a x.term)).top = 0)
    (hbottom : x.history.bottom = (A.seen (T.perform a x.term)).bottom)
    (hhistory : (A.seen (T.perform a x.term)).history = (A.seen x.term).history) :
    Agree A (x.forward T a) ∧ (A.seen (x.forward T a).term).lines = (A.seen x.term).lines ∧
      ((x.history.rebaseOnNormal = true ∧ T.altScreen (T.perform a x.term) = false) ∧
          Rebased A x (x.forward T a) ∨
        ¬ (x.history.rebaseOnNormal = true ∧ T.altScreen (T.perform a x.term) = false) ∧
          Moves A x (x.forward T a) []) := by
  have hoffset := A.offset_zero a x.term hx.offset
  have hpos : 1 ≤ (A.seen (T.perform a x.term)).lines := hlines ▸ hx.lines
  unfold Tracked.forward Tracked.normal
  dsimp only
  split
  case isTrue hback =>
    have hnormal : (A.seen (T.perform a x.term)).alternate = false := by
      rw [← A.altScreen]
      exact hback.2
    have hsize : T.historySize (T.perform a x.term) =
        (A.seen (T.perform a x.term)).history.length := by
      rw [A.historySize, hnormal]
      rfl
    refine ⟨⟨hpos, htop, hbottom, hoffset, fun _ => rfl, fun _ => ?_⟩, hlines,
      .inl ⟨hback, ?_, rfl, hnormal⟩⟩
    · simp only [History.rebase, hsize]
      omega
    · simp only [History.rebase, hsize, A.screenLines]
  case isFalse hstays =>
    refine ⟨⟨hpos, htop, hbottom, hoffset, fun hnormal => ?_, fun hpending => ?_⟩, hlines,
      .inr ⟨hstays, rfl, hlines, .inl ?_, rfl⟩⟩
    · rw [A.altScreen] at hstays
      cases hpending : x.history.rebaseOnNormal with
      | false => rfl
      | true => exact absurd ⟨hpending, hnormal⟩ hstays
    · dsimp only
      rw [hhistory]
      exact hx.founded hpending
    · rw [List.append_nil, keep_of_length_le (A.history_le _)]
      exact hhistory

/-- What an action does to the numbers: the rows that leave the screen take theirs along, or all of
them are new. -/
structure Outcome (A : Alacritty T) (wide : Char → Bool) (x : Tracked τ) (a : Action α) : Prop where
  agree : Agree A (x.handle T wide a)
  lines : (A.seen (x.handle T wide a).term).lines = (A.seen x.term).lines
  moves : ¬ x.renumbers T a → Moves A x (x.handle T wide a)
    (T.topRows x.term (A.moved (x.asked T wide a) x.term))
  rebased : x.renumbers T a → Rebased A x (x.handle T wide a)

theorem not_renumbers (hx : Agree A x) (ha : a ≠ .resetState)
    (hscreen : (A.seen (T.perform a x.term)).alternate = (A.seen x.term).alternate) :
    ¬ x.renumbers T a := by
  rintro (rfl | ⟨hpending, hnormal⟩)
  · exact ha rfl
  · rw [A.altScreen, hscreen] at hnormal
    rw [hx.normal hnormal] at hpending
    cases hpending

theorem outcome_scrolls (hx : Agree A x) (ha : a.scrolls = true)
    {b : Action α} (hb : x.asked T wide a = b) (hbscrolls : b.scrolls = true) {e : Bool}
    {ex : Option Nat} (hhandle : x.handle T wide a = x.apply T e ex (T.perform b))
    (hcount : (A.seen x.term).alternate = false →
      x.counted T e ex (T.perform b (x.watched T e ex)) = A.moved b x.term) :
    Outcome A wide x a := by
  obtain ⟨hagree, hmoves⟩ := apply_scrolls hx hbscrolls hcount
  have hno : ¬ x.renumbers T a :=
    not_renumbers hx (fun h => by rw [h] at ha; cases ha) (by rw [A.scrolled a x.term ha])
  refine ⟨hhandle ▸ hagree, hhandle ▸ hmoves.lines, fun _ => ?_, fun h => absurd h hno⟩
  rw [hb, hhandle]
  exact hmoves

theorem outcome_single (hx : Agree A x) (ha : a.single = true) {b : Action α}
    (hb : x.asked T wide a = b) (hbsingle : b.single = true)
    (hhandle : x.handle T wide a = x.single T b) : Outcome A wide x a :=
  have hscrolls := Action.scrolls_of_single hbsingle
  outcome_scrolls hx (Action.scrolls_of_single ha) hb hscrolls hhandle
    (single_counts hbsingle hscrolls hx)

/-- An action that moves no row, and leaves the alternate screen alone. -/
theorem outcome_idle (hx : Agree A x) (ha : a ≠ .resetState) (hasked : x.asked T wide a = a)
    (hscrolls : a.scrolls = false)
    (hscreen : (A.seen (T.perform a x.term)).alternate = (A.seen x.term).alternate)
    (h : Agree A (x.handle T wide a) ∧ Moves A x (x.handle T wide a) []) :
    Outcome A wide x a := by
  refine ⟨h.1, h.2.lines, fun _ => ?_, fun hr => absurd hr (not_renumbers hx ha hscreen)⟩
  rw [hasked, A.moved_other a x.term hscrolls]
  exact h.2

theorem outcome_forward (hx : Agree A x) (ha : a ≠ .resetState) (hasked : x.asked T wide a = a)
    (hscrolls : a.scrolls = false) (hhandle : x.handle T wide a = x.forward T a)
    (hlines : (A.seen (T.perform a x.term)).lines = (A.seen x.term).lines)
    (htop : x.history.top = 0 ↔ (A.seen (T.perform a x.term)).top = 0)
    (hbottom : x.history.bottom = (A.seen (T.perform a x.term)).bottom)
    (hhistory : (A.seen (T.perform a x.term)).history = (A.seen x.term).history) :
    Outcome A wide x a := by
  obtain ⟨hagree, hsame, hcases⟩ := forward_spec hx hlines htop hbottom hhistory
  refine ⟨hhandle ▸ hagree, hhandle ▸ hsame, fun hno => ?_, fun hr => ?_⟩ <;> rw [hhandle]
  · rw [hasked, A.moved_other a x.term hscrolls]
    rcases hcases with ⟨hback, -⟩ | ⟨-, hmoves⟩
    · exact absurd (.inr hback) hno
    · exact hmoves
  · rcases hcases with ⟨-, hrebased⟩ | ⟨hstays, -⟩
    · exact hrebased
    · exact absurd (hr.resolve_left ha) hstays

theorem outcome_scrollUp (hx : Agree A x) {rows : Nat} :
    Outcome A wide x (.scrollUp rows) := by
  refine outcome_scrolls (b := .scrollUp rows) hx rfl rfl rfl rfl fun hnormal => ?_
  rw [A.moved_scrollUp _ _ hnormal]
  unfold Tracked.counted
  rw [A.altScreen, hnormal]
  by_cases htop : x.history.top = 0
  · rw [if_pos ⟨rfl, decide_eq_true htop⟩, if_pos (hx.top.mp htop), htop, hx.bottom]
    rfl
  · rw [if_neg fun h => htop (of_decide_eq_true h.2), if_neg fun h => htop (hx.top.mpr h)]

theorem outcome_deleteLines (hx : Agree A x) {lines : Nat} :
    Outcome A wide x (.deleteLines lines) := by
  refine outcome_scrolls (b := .deleteLines lines) hx rfl rfl rfl rfl fun hnormal => ?_
  rw [A.moved_deleteLines _ _ hnormal]
  unfold Tracked.counted
  rw [A.altScreen, hnormal]
  by_cases htop : T.cursorLine x.term = 0 ∧ x.history.top = 0
  · have hline : T.cursorLine x.term = 0 ∧ (A.seen x.term).top = 0 := ⟨htop.1, hx.top.mp htop.2⟩
    rw [if_pos ⟨rfl, decide_eq_true htop⟩, if_pos hline, htop.1, hx.bottom]
    rfl
  · rw [if_neg fun h => htop (of_decide_eq_true h.2),
      if_neg fun h => htop ⟨h.1, hx.top.mpr h.2⟩]

theorem outcome_clearScreen (hx : Agree A x) (mode : ClearMode) :
    Outcome A wide x (.clearScreen mode) := by
  cases mode with
  | all =>
    refine outcome_scrolls (b := .clearScreen .all) hx rfl rfl rfl rfl fun hnormal => ?_
    rw [← filledLines_eq A hnormal]
    unfold Tracked.counted
    rw [A.altScreen, hnormal, if_pos rfl]
    cases filledLines T x.term <;> simp
  | saved =>
    have hclear := A.clearSaved x.term
    refine outcome_idle hx nofun rfl rfl (by rw [hclear]) (apply_idle hx ?_ ?_ ?_ ?_ ?_) <;>
      rw [hclear]
    dsimp only
    split
    · exact .inl rfl
    · exact .inr rfl
  | below =>
    have hclear := A.clearPart .below x.term (.inl rfl)
    refine outcome_idle hx nofun rfl rfl (by rw [hclear])
      (apply_idle hx ?_ ?_ ?_ ?_ (.inl ?_)) <;> rw [hclear]
  | above =>
    have hclear := A.clearPart .above x.term (.inr rfl)
    refine outcome_idle hx nofun rfl rfl (by rw [hclear])
      (apply_idle hx ?_ ?_ ?_ ?_ (.inl ?_)) <;> rw [hclear]

theorem outcome_resetState (hx : Agree A x) : Outcome A wide x .resetState := by
  have hreset := A.resetState x.term
  have hsize : T.historySize (T.perform .resetState x.term) =
      (A.seen (T.perform .resetState x.term)).history.length := by
    rw [A.historySize, hreset]
    rfl
  have hlines : T.screenLines (T.perform .resetState x.term) = (A.seen x.term).lines := by
    rw [A.screenLines, hreset]
  refine ⟨⟨?_, ?_, ?_, A.offset_zero _ _ hx.offset, fun _ => rfl, fun _ => ?_⟩, ?_,
    fun h => absurd (.inl rfl) h, fun _ => ⟨?_, rfl, congrArg Seen.alternate hreset⟩⟩
  · change 1 ≤ (A.seen (T.perform .resetState x.term)).lines
    rw [hreset]
    exact hx.lines
  · change 0 = 0 ↔ (A.seen (T.perform .resetState x.term)).top = 0
    rw [hreset]
  · change T.screenLines (T.perform .resetState x.term) =
      (A.seen (T.perform .resetState x.term)).bottom
    rw [hlines, hreset]
  · change (A.seen (T.perform .resetState x.term)).history.length ≤
      x.history.liveTop + (T.screenLines (T.perform .resetState x.term) +
        T.historySize (T.perform .resetState x.term))
    omega
  · change (A.seen (T.perform .resetState x.term)).lines = (A.seen x.term).lines
    rw [hreset]
  · change x.history.liveTop + (T.screenLines (T.perform .resetState x.term) +
      T.historySize (T.perform .resetState x.term)) = x.history.liveTop +
        ((A.seen (T.perform .resetState x.term)).lines +
          (A.seen (T.perform .resetState x.term)).history.length)
    rw [hsize, A.screenLines]

theorem outcome_setScrollingRegion (hx : Agree A x) {top : Nat} {bottom : Option Nat}
    (hemitted : 1 ≤ top) : Outcome A wide x (.setScrollingRegion top bottom) := by
  have hregion := A.setScrollingRegion top bottom x.term hemitted
  have hpos := hx.lines
  have hscreen : (A.seen (T.perform (.setScrollingRegion top bottom) x.term)).alternate =
      (A.seen x.term).alternate := by
    rw [hregion]
    split <;> rfl
  refine outcome_idle hx nofun rfl rfl hscreen ?_
  change Agree A (x.setScrollingRegion T top bottom) ∧
    Moves A x (x.setScrollingRegion T top bottom) []
  have hoffset := A.offset_zero (.setScrollingRegion top bottom) x.term hx.offset
  simp only [Tracked.setScrollingRegion, A.screenLines]
  split
  case isTrue hlt =>
    rw [if_pos hlt] at hregion
    refine ⟨⟨?_, ?_, ?_, hoffset, ?_, ?_⟩, ⟨rfl, ?_, .inl ?_, rfl⟩⟩ <;> rw [hregion]
    · exact hpos
    · dsimp only
      omega
    · exact hx.normal
    · exact hx.founded
    · rw [List.append_nil, keep_of_length_le (A.history_le _)]
  case isFalse hle =>
    rw [if_neg hle] at hregion
    refine ⟨⟨?_, ?_, ?_, hoffset, ?_, ?_⟩, ⟨rfl, ?_, .inl ?_, rfl⟩⟩ <;> rw [hregion]
    · exact hpos
    · exact hx.top
    · exact hx.bottom
    · exact hx.normal
    · exact hx.founded
    · rw [List.append_nil, keep_of_length_le (A.history_le _)]

/-- A switch of the columns makes the scrolling region the whole screen, and it is that already. -/
theorem outcome_columns (hx : Agree A x) (ha : a.switchesColumns = true)
    (hasked : x.asked T wide a = a) (hhandle : x.handle T wide a = x.forward T a)
    (hwhole : x.Whole T a) : Outcome A wide x a := by
  obtain ⟨htop, hbottom⟩ := hwhole ha
  have hswitch := A.columnSwitch a x.term ha
  refine outcome_forward hx (fun h => by rw [h] at ha; cases ha) hasked
    (by cases a <;> first | rfl | cases ha) hhandle ?_ ?_ ?_ ?_ <;> rw [hswitch]
  · exact ⟨fun _ => rfl, fun _ => htop⟩
  · rw [hbottom, A.screenLines]

theorem outcome (hx : Agree A x) (ha : a.Emitted) (hwhole : x.Whole T a) :
    Outcome A wide x a := by
  cases a with
  | input c => exact outcome_single hx rfl rfl rfl rfl
  | putTab count => exact outcome_single hx rfl rfl rfl rfl
  | linefeed => exact outcome_single hx rfl rfl rfl rfl
  | newline => exact outcome_single hx rfl rfl rfl rfl
  | scrollUp rows => exact outcome_scrollUp hx
  | deleteLines lines => exact outcome_deleteLines hx
  | clearScreen mode => exact outcome_clearScreen hx mode
  | resetState => exact outcome_resetState hx
  | setScrollingRegion top bottom => exact outcome_setScrollingRegion hx ha
  | setPrivateMode mode =>
    by_cases hmode : mode = columnMode
    · exact outcome_columns hx (decide_eq_true hmode) rfl rfl hwhole
    · have hset := A.setPrivateMode mode x.term hmode
      refine outcome_forward hx nofun rfl rfl rfl ?_ ?_ ?_ ?_ <;> rw [hset]
      · exact hx.top
      · exact hx.bottom
  | unsetPrivateMode mode =>
    by_cases hmode : mode = columnMode
    · exact outcome_columns hx (decide_eq_true hmode) rfl rfl hwhole
    · have hset := A.unsetPrivateMode mode x.term hmode
      refine outcome_forward hx nofun rfl rfl rfl ?_ ?_ ?_ ?_ <;> rw [hset]
      · exact hx.top
      · exact hx.bottom
  | forwarded name arguments =>
    have hsame := A.forwarded name arguments x.term
    refine outcome_forward hx nofun rfl rfl rfl ?_ ?_ ?_ ?_ <;> rw [hsame]
    · exact hx.top
    · exact hx.bottom

end Agend.Scrollback
