import Agend.Scrollback.Counted

/-! What a run of parser actions and resizes does to the row numbers. -/
namespace Agend.Scrollback

open Library.Scrollback

variable {τ α ρ π : Type} {T : Terminal τ α ρ} {A : Alacritty T} {wide : Char → Bool}
  {d d' : Display τ} {height b n : Nat}

inductive Step (α : Type) where
  | act (a : Action α)
  | resize (rows columns : Nat)

/-- The parser's rows are from one on, and no terminal is without rows or columns. -/
def Step.Valid : Step α → Prop
  | .act a => a.Emitted
  | .resize rows columns => 1 ≤ rows ∧ 1 ≤ columns

namespace Display

variable (T : Terminal τ α ρ) (wide : Char → Bool) (d : Display τ)

def step : Step α → Display τ
  | .act a => { d with toTracked := d.toTracked.handle T wide a }
  | .resize rows columns =>
    if (rows, columns) = (d.rows, d.columns) then d else d.resize T rows columns

def play (d : Display τ) (steps : List (Step α)) : Display τ := steps.foldl (step T wide) d

/-- A resize, a reset, or the return to the normal screen after a resize. -/
def Renumbers : Step α → Prop
  | .act a => d.toTracked.renumbers T a
  | .resize rows columns => (rows, columns) ≠ (d.rows, d.columns)

/-- How many rows the terminal moves into the history of the normal screen. -/
def moved (A : Alacritty T) : Step α → Nat
  | .act a => A.moved (d.toTracked.asked T wide a) d.term
  | .resize _ _ => 0

/-- How many rows the normal screen had when it was last shown. -/
def shownHeight (height : Nat) : Nat := if T.altScreen d.term then height else d.rows

/-- The columns are switched while the scrolling region is the whole screen, and no rows get new
numbers while there are fewer of them than were shown. -/
def Meets (height : Nat) : Step α → Prop
  | .act a => d.toTracked.Whole T a ∧
    (d.history.rebaseOnNormal = true → T.altScreen (T.perform a d.term) = false → height ≤ d.rows)
  | .resize rows _ => T.altScreen d.term = false → d.rows ≤ rows

def Calm (d : Display τ) : List (Step α) → Prop
  | [] => True
  | e :: es => ¬ d.Renumbers T e ∧ Calm (d.step T wide e) es

def movedBy (A : Alacritty T) (d : Display τ) : List (Step α) → Nat
  | [] => 0
  | e :: es => d.moved T wide A e + movedBy A (d.step T wide e) es

def MeetsAll (height : Nat) (d : Display τ) : List (Step α) → Prop
  | [] => True
  | e :: es => d.Meets T height e ∧
    MeetsAll ((d.step T wide e).shownHeight T height) (d.step T wide e) es

instance (height : Nat) (d : Display τ) : (e : Step α) → Decidable (d.Meets T height e)
  | .act a => inferInstanceAs (Decidable ((a.switchesColumns = true →
      d.history.top = 0 ∧ d.history.bottom = T.screenLines d.term) ∧
      (d.history.rebaseOnNormal = true → T.altScreen (T.perform a d.term) = false →
        height ≤ d.rows)))
  | .resize rows _ => inferInstanceAs (Decidable (T.altScreen d.term = false → d.rows ≤ rows))

instance meetsAllDecidable (height : Nat) (d : Display τ) :
    (es : List (Step α)) → Decidable (d.MeetsAll T wide height es)
  | [] => .isTrue trivial
  | e :: es =>
    have := meetsAllDecidable ((d.step T wide e).shownHeight T height) (d.step T wide e) es
    inferInstanceAs (Decidable (d.Meets T height e ∧
      MeetsAll T wide ((d.step T wide e).shownHeight T height) (d.step T wide e) es))

instance [DecidableEq α] (d : Display τ) : (e : Step α) → Decidable (d.Renumbers T e)
  | .act a => inferInstanceAs (Decidable (a = .resetState ∨
      d.history.rebaseOnNormal = true ∧ T.altScreen (T.perform a d.term) = false))
  | .resize rows columns => inferInstanceAs (Decidable ((rows, columns) ≠ (d.rows, d.columns)))

instance calmDecidable [DecidableEq α] (d : Display τ) :
    (es : List (Step α)) → Decidable (d.Calm T wide es)
  | [] => .isTrue trivial
  | e :: es =>
    have := calmDecidable (d.step T wide e) es
    inferInstanceAs (Decidable (¬ d.Renumbers T e ∧ Calm T wide (d.step T wide e) es))

/-- The row that has a number: one of the history, or one of the screen. -/
def rowOf (A : Alacritty T) (d : Display τ) (n : Nat) : Option ρ :=
  if n < d.history.liveTop then numbered d.history.liveTop (A.seen d.term).history n
  else if n < d.history.liveTop + (A.seen d.term).lines then
    some (T.row d.term ((n : Int) - d.history.liveTop))
  else none

/-- The height after some steps. -/
def lastHeight (height : Nat) (d : Display τ) : List (Step α) → Nat
  | [] => height
  | e :: es => lastHeight ((d.step T wide e).shownHeight T height) (d.step T wide e) es

end Display

section

variable (T) (wide) (x : Tracked τ)

theorem liveTop_le_normal : x.history.liveTop ≤ (x.normal T).history.liveTop := by
  unfold Tracked.normal
  split
  · exact Nat.le_add_right _ _
  · exact Nat.le_refl _

theorem liveTop_le_apply (e : Bool) (ex : Option Nat) (f : τ → τ) :
    x.history.liveTop ≤ (x.apply T e ex f).history.liveTop := by
  have hnormal := liveTop_le_normal T
    { term := T.scrollDisplay .bottom (f (x.watched T e ex)),
      history := { x.history with
        liveTop := x.history.liveTop + x.counted T e ex (f (x.watched T e ex)) } }
  exact Nat.le_trans (Nat.le_add_right _ (x.counted T e ex (f (x.watched T e ex)))) hnormal

theorem liveTop_le_forward (a : Action α) :
    x.history.liveTop ≤ (x.forward T a).history.liveTop :=
  liveTop_le_normal T { x with term := T.perform a x.term }

theorem liveTop_le_resize (h : History) (t : τ) : h.liveTop ≤ (h.resize T t).liveTop := by
  simp only [History.resize]
  split
  · exact Nat.le_refl _
  · exact Nat.le_add_right _ _

theorem liveTop_le_handle (a : Action α) :
    x.history.liveTop ≤ (x.handle T wide a).history.liveTop := by
  cases a with
  | resetState => exact Nat.le_add_right _ _
  | setScrollingRegion top bottom =>
    simp only [Tracked.handle, Tracked.setScrollingRegion]
    split <;> exact Nat.le_refl _
  | setPrivateMode mode => exact liveTop_le_forward T x _
  | unsetPrivateMode mode => exact liveTop_le_forward T x _
  | forwarded name arguments => exact liveTop_le_forward T x _
  | _ => exact liveTop_le_apply T x _ _ _

theorem liveTop_le_step (d : Display τ) (e : Step α) :
    d.history.liveTop ≤ (d.step T wide e).history.liveTop := by
  cases e with
  | act a => exact liveTop_le_handle T wide d.toTracked a
  | resize rows columns =>
    simp only [Display.step]
    split
    · exact Nat.le_refl _
    · exact liveTop_le_resize T _ _

/-- The number of the live screen's first row never goes down. -/
theorem liveTop_le_play (d : Display τ) (es : List (Step α)) :
    d.history.liveTop ≤ (d.play T wide es).history.liveTop := by
  induction es generalizing d with
  | nil => exact Nat.le_refl _
  | cons e es ih => exact Nat.le_trans (liveTop_le_step T wide d e) (ih _)

end

/-- What holds of a display between two steps. -/
structure Steady (A : Alacritty T) (d : Display τ) (height : Nat) : Prop where
  agree : Agree A d.toTracked
  rows : d.rows = (A.seen d.term).lines
  height : d.history.rebaseOnNormal = false → height = d.rows

/-- All the numbers in use are from `b` on, or will be on the normal screen. -/
def Fresh (A : Alacritty T) (b : Nat) (d : Display τ) : Prop :=
  d.history.rebaseOnNormal = true ∨ b + (A.seen d.term).history.length ≤ d.history.liveTop

theorem prepare_seen (A : Alacritty T) (t : τ) :
    (A.seen (prepare T t)).alternate = (A.seen t).alternate ∧
      (A.seen (prepare T t)).offset = (A.seen t).offset := by
  unfold prepare
  rw [A.altScreen]
  split
  case isTrue halternate =>
    obtain ⟨hout, hout'⟩ := A.swapAlt t
    obtain ⟨hcut, hcut'⟩ := A.clip (T.swapAlt t)
    obtain ⟨hin, hin'⟩ := A.swapAlt (T.clip (T.swapAlt t))
    have hback : (A.seen (T.swapAlt (T.clip (T.swapAlt t)))).alternate = true := by
      rw [hin, hcut, hout, halternate]
      rfl
    obtain ⟨hput, hput'⟩ := A.putGrid (T.clip t) _ hback
    exact ⟨by rw [hput, halternate], by rw [hput', hin', hcut', hout']⟩
  case isFalse => exact A.clip t

section

variable {rows columns : Nat}

/-- The terminal after a resize, whatever was done to its cells before. -/
theorem resize_term (A : Alacritty T) (d : Display τ) (hrows : 1 ≤ rows) (hcolumns : 1 ≤ columns)
    (hoffset : (A.seen d.term).offset = 0) :
    A.seen (d.resize T rows columns).term =
      { alternate := (A.seen d.term).alternate, lines := rows, top := 0, bottom := rows,
        history := (A.seen (d.resize T rows columns).term).history, offset := 0 } := by
  obtain ⟨t, ht, hscreen, hzero⟩ : ∃ t, (d.resize T rows columns).term = T.resize rows columns t ∧
      (A.seen t).alternate = (A.seen d.term).alternate ∧ (A.seen t).offset = 0 := by
    by_cases hone : columns = 1
    · obtain ⟨hscreen, hsame⟩ := prepare_seen A d.term
      exact ⟨_, by simp only [Display.resize, if_pos hone], hscreen, hsame.trans hoffset⟩
    · exact ⟨_, by simp only [Display.resize, if_neg hone], rfl, hoffset⟩
  have hseen := A.resize rows columns t hrows hcolumns
  rw [hscreen, A.resize_offset rows columns t hzero, ← ht] at hseen
  exact hseen

/-- A resize on the normal screen. -/
theorem resize_normal (hd : Agree A d.toTracked) (hrows : 1 ≤ rows) (hcolumns : 1 ≤ columns)
    (hnormal : (A.seen d.term).alternate = false) :
    Agree A (d.resize T rows columns).toTracked ∧
      Rebased A d.toTracked (d.resize T rows columns).toTracked := by
  have hseen := resize_term A d hrows hcolumns hd.offset
  rw [hnormal] at hseen
  have hhistory : (d.resize T rows columns).history =
      { liveTop := d.history.liveTop +
          (rows + (A.seen (d.resize T rows columns).term).history.length),
        top := 0, bottom := rows, rebaseOnNormal := false } := by
    change d.history.resize T (d.resize T rows columns).term = _
    have hlines : T.screenLines (d.resize T rows columns).term = rows := by
      rw [A.screenLines, hseen]
    have hsize : T.historySize (d.resize T rows columns).term =
        (A.seen (d.resize T rows columns).term).history.length := by
      rw [A.historySize, hseen]
      rfl
    have hscreen : T.altScreen (d.resize T rows columns).term = false := by
      rw [A.altScreen, hseen]
    simp only [History.resize, History.rebase, hlines, hsize, hscreen, Bool.false_eq_true, if_false]
  refine ⟨⟨?_, ?_, ?_, ?_, fun _ => ?_, fun _ => ?_⟩, ⟨?_, ?_, ?_⟩⟩
  · rw [hseen]
    exact hrows
  · rw [hhistory, hseen]
  · rw [hhistory, hseen]
  · rw [hseen]
  · rw [hhistory]
  · rw [hhistory]
    dsimp only
    omega
  · rw [hhistory, hseen]
  · rw [hhistory]
  · rw [hseen]

theorem resize_alternate (hd : Agree A d.toTracked) (hrows : 1 ≤ rows) (hcolumns : 1 ≤ columns)
    (halternate : (A.seen d.term).alternate = true) :
    Agree A (d.resize T rows columns).toTracked ∧
      (d.resize T rows columns).history.rebaseOnNormal = true ∧
      (d.resize T rows columns).history.liveTop = d.history.liveTop := by
  have hseen := resize_term A d hrows hcolumns hd.offset
  rw [halternate] at hseen
  have hhistory : (d.resize T rows columns).history =
      { d.history with top := 0, bottom := rows, rebaseOnNormal := true } := by
    change d.history.resize T (d.resize T rows columns).term = _
    have hlines : T.screenLines (d.resize T rows columns).term = rows := by
      rw [A.screenLines, hseen]
    have hscreen : T.altScreen (d.resize T rows columns).term = true := by
      rw [A.altScreen, hseen]
    simp only [History.resize, hlines, hscreen, if_true]
  refine ⟨⟨?_, ?_, ?_, ?_, fun hnormal => ?_, fun hpending => ?_⟩, ?_, ?_⟩
  · rw [hseen]
    exact hrows
  · rw [hhistory, hseen]
  · rw [hhistory, hseen]
  · rw [hseen]
  · rw [hseen] at hnormal
    cases hnormal
  · rw [hhistory] at hpending
    cases hpending
  · rw [hhistory]
  · rw [hhistory]

end

/-- What a step does to the numbers in use. -/
structure Stepped (A : Alacritty T) (wide : Char → Bool) (d : Display τ) (height : Nat)
    (e : Step α) : Prop where
  steady : Steady A (d.step T wide e) ((d.step T wide e).shownHeight T height)
  ceiling : d.history.liveTop + height ≤
    (d.step T wide e).history.liveTop + (d.step T wide e).shownHeight T height
  moves : ¬ d.Renumbers T e → Moves A d.toTracked (d.step T wide e).toTracked
    (T.topRows d.term (d.moved T wide A e))
  fresh : d.Renumbers T e → Fresh A (d.history.liveTop + height) (d.step T wide e)

theorem stepped_act (hd : Steady A d height) {a : Action α} (ha : a.Emitted)
    (hm : d.Meets T height (.act a)) : Stepped A wide d height (.act a) := by
  obtain ⟨hwhole, hback⟩ := hm
  have hout : Outcome A wide d.toTracked a := outcome hd.agree ha hwhole
  have hagree : Agree A (d.step T wide (.act a)).toTracked := hout.agree
  have hrows : (d.step T wide (.act a)).rows = (A.seen (d.step T wide (.act a)).term).lines :=
    hd.rows.trans hout.lines.symm
  by_cases hnew : d.toTracked.renumbers T a
  · have hrebased := hout.rebased hnew
    have hheight : (d.step T wide (.act a)).shownHeight T height = d.rows := by
      have hnormal : T.altScreen (d.step T wide (.act a)).term = false := by
        rw [A.altScreen]
        exact hrebased.normal
      unfold Display.shownHeight
      rw [hnormal]
      rfl
    have hle : height ≤ d.rows := by
      cases hpending : d.history.rebaseOnNormal with
      | false => exact Nat.le_of_eq (hd.height hpending)
      | true =>
        refine hback hpending ?_
        rcases hnew with rfl | ⟨-, hnormal⟩
        · rw [A.altScreen, A.resetState]
        · exact hnormal
    have htop : (d.step T wide (.act a)).history.liveTop = d.history.liveTop +
        ((A.seen (d.step T wide (.act a)).term).lines +
          (A.seen (d.step T wide (.act a)).term).history.length) := hrebased.liveTop
    rw [← hrows] at htop
    change _ = d.history.liveTop + (d.rows + _) at htop
    refine ⟨⟨hagree, hrows, fun _ => hheight⟩, ?_, fun hno => absurd hnew hno, fun _ => .inr ?_⟩
    · omega
    · omega
  · have hmoves := hout.moves hnew
    have hpending : (d.step T wide (.act a)).history.rebaseOnNormal = d.history.rebaseOnNormal :=
      hmoves.pending
    have hheight : (d.step T wide (.act a)).shownHeight T height = height := by
      unfold Display.shownHeight
      split
      · rfl
      case isFalse hnormal =>
        rw [A.altScreen, Bool.not_eq_true] at hnormal
        exact (hd.height (hpending ▸ hagree.normal hnormal)).symm
    have htop := hmoves.liveTop
    change (d.step T wide (.act a)).history.liveTop = _ at htop
    refine ⟨⟨hagree, hrows, fun hnone => ?_⟩, ?_, fun _ => hmoves, fun h => absurd h hnew⟩
    · rw [hheight]
      exact hd.height (hpending ▸ hnone)
    · rw [hheight]
      omega

theorem stepped_resize (hd : Steady A d height) {rows columns : Nat} (hrows : 1 ≤ rows)
    (hcolumns : 1 ≤ columns) (hm : d.Meets T height (.resize rows columns)) :
    Stepped A wide d height (.resize rows columns) := by
  by_cases hsame : (rows, columns) = (d.rows, d.columns)
  · have hstep : d.step T wide (.resize rows columns) = d := if_pos hsame
    have hheight : d.shownHeight T height = height := by
      unfold Display.shownHeight
      split
      · rfl
      case isFalse hnormal =>
        rw [A.altScreen, Bool.not_eq_true] at hnormal
        exact (hd.height (hd.agree.normal hnormal)).symm
    refine ⟨?_, ?_, fun _ => ?_, fun hnew => absurd hsame hnew⟩ <;> rw [hstep]
    · rw [hheight]
      exact hd
    · exact Nat.le_of_eq (congrArg (d.history.liveTop + ·) hheight.symm)
    · refine ⟨rfl, rfl, .inl ?_, rfl⟩
      change _ = keep scrollbackRows (_ ++ [])
      rw [List.append_nil, keep_of_length_le (A.history_le _)]
  · have hstep : d.step T wide (.resize rows columns) = d.resize T rows columns := if_neg hsame
    have hseen := resize_term A d hrows hcolumns hd.agree.offset
    have hlines : (d.resize T rows columns).rows =
        (A.seen (d.resize T rows columns).term).lines := by
      rw [hseen]
      rfl
    cases hscreen : (A.seen d.term).alternate with
    | false =>
      obtain ⟨hagree, hrebased⟩ := resize_normal hd.agree hrows hcolumns hscreen
      have hheight : (d.resize T rows columns).shownHeight T height = rows := by
        unfold Display.shownHeight
        rw [A.altScreen, hrebased.normal]
        rfl
      have hle := hm (by rw [A.altScreen, hscreen])
      have hshown := hd.height (hd.agree.normal hscreen)
      have htop := hrebased.liveTop
      rw [← hlines] at htop
      change _ = d.history.liveTop + (rows + _) at htop
      refine ⟨?_, ?_, fun hno => absurd hsame hno, fun _ => .inr ?_⟩ <;> rw [hstep]
      · exact ⟨hagree, hlines, fun _ => hheight⟩
      · omega
      · omega
    | true =>
      obtain ⟨hagree, hpending, htop⟩ := resize_alternate hd.agree hrows hcolumns hscreen
      have hheight : (d.resize T rows columns).shownHeight T height = height := by
        unfold Display.shownHeight
        rw [A.altScreen, hseen, hscreen]
        rfl
      refine ⟨?_, ?_, fun hno => absurd hsame hno, fun _ => .inl ?_⟩ <;> rw [hstep]
      · exact ⟨hagree, hlines, fun hnone => by rw [hpending] at hnone; cases hnone⟩
      · omega
      · exact hpending

theorem stepped (hd : Steady A d height) {e : Step α} (he : e.Valid) (hm : d.Meets T height e) :
    Stepped A wide d height e := by
  cases e with
  | act a => exact stepped_act hd he hm
  | resize rows columns => exact stepped_resize hd he.1 he.2 hm

section

variable {x y : Tracked τ} {rows : List ρ}

/-- The oldest number only goes up. -/
theorem Moves.oldest (h : Moves A x y rows) :
    x.history.liveTop + (A.seen y.term).history.length ≤
      y.history.liveTop + (A.seen x.term).history.length := by
  have htop := h.liveTop
  rcases h.history with hkept | ⟨-, hnone⟩
  · rw [hkept, length_keep, List.length_append]
    omega
  · rw [hnone, List.length_nil]
    omega

/-- A row of the history that is still there has the number it had. -/
theorem Moves.keeps (h : Moves A x y rows) (hn : n < x.history.liveTop)
    (hkept : y.history.liveTop ≤ n + (A.seen y.term).history.length) :
    numbered y.history.liveTop (A.seen y.term).history n =
      numbered x.history.liveTop (A.seen x.term).history n := by
  have htop := h.liveTop
  rcases h.history with hhistory | ⟨-, hnone⟩
  · rw [hhistory] at hkept ⊢
    rw [numbered_keep hkept, htop, numbered_append hn]
  · rw [hnone, List.length_nil] at hkept
    omega

/-- A row that leaves the screen takes the number along that it had there. -/
theorem Moves.takes (h : Moves A x y rows) {i : Nat} (hi : i < rows.length)
    (hkept : y.history.liveTop ≤ x.history.liveTop + i + (A.seen y.term).history.length) :
    numbered y.history.liveTop (A.seen y.term).history (x.history.liveTop + i) =
      rows[i]? := by
  rcases h.history with hhistory | ⟨hnone, -⟩
  · rw [hhistory] at hkept ⊢
    rw [numbered_keep hkept, h.liveTop, numbered_append_new hi]
  · rw [hnone] at hi
    cases hi

end

theorem length_topRows {t : τ} : (T.topRows t n).length = n := by
  rw [Terminal.topRows, List.length_map, List.length_range]

theorem moved_le (A : Alacritty T) (e : Step α) : d.moved T wide A e ≤ (A.seen d.term).lines := by
  cases e with
  | act a => exact A.moved_le _ _
  | resize rows columns => exact Nat.zero_le _

/-- A number that the history has after a step is that of the row that had it before, there or on
the screen. -/
theorem Stepped.rowOf {e : Step α} (h : Stepped A wide d height e) (hcalm : ¬ d.Renumbers T e)
    (hn : n < (d.step T wide e).history.liveTop)
    (hkept : (d.step T wide e).history.liveTop ≤
      n + (A.seen (d.step T wide e).term).history.length) :
    (d.step T wide e).rowOf T A n = d.rowOf T A n := by
  have hmoves := h.moves hcalm
  have htop := hmoves.liveTop
  rw [length_topRows] at htop
  unfold Display.rowOf
  rw [if_pos hn]
  by_cases hold : n < d.history.liveTop
  · rw [if_pos hold]
    exact hmoves.keeps hold hkept
  · have hle : d.moved T wide A e ≤ (A.seen d.term).lines := moved_le A e
    obtain ⟨i, rfl⟩ : ∃ i, n = d.history.liveTop + i := ⟨n - d.history.liveTop, by omega⟩
    have hi : i < d.moved T wide A e := by omega
    rw [if_neg hold, if_pos (by omega)]
    refine (hmoves.takes (by rwa [length_topRows]) hkept).trans ?_
    rw [Terminal.topRows, List.getElem?_map, List.getElem?_range hi, Option.map_some]
    congr 2
    omega

theorem Fresh.step {e : Step α} (he : Stepped A wide d height e)
    (hb : b ≤ d.history.liveTop + height) (h : Fresh A b d) : Fresh A b (d.step T wide e) := by
  by_cases hnew : d.Renumbers T e
  · exact (he.fresh hnew).imp_right fun hle => by omega
  · have hmoves := he.moves hnew
    rcases h with hpending | hle
    · exact .inl (hmoves.pending.trans hpending)
    · have holdest := hmoves.oldest
      exact .inr (by omega)

theorem meetsAll_append {height : Nat} {es es' : List (Step α)} :
    d.MeetsAll T wide height (es ++ es') ↔ d.MeetsAll T wide height es ∧
      (d.play T wide es).MeetsAll T wide (d.lastHeight T wide height es) es' := by
  induction es generalizing d height with
  | nil => exact ⟨fun h => ⟨trivial, h⟩, fun h => h.2⟩
  | cons e es ih =>
    exact (and_congr_right fun _ => ih).trans and_assoc.symm

/-- After new numbers were given, none of those that were in use is in use. -/
theorem play_spec {es : List (Step α)} (hd : Steady A d height) (hes : ∀ e ∈ es, e.Valid)
    (hm : d.MeetsAll T wide height es) (hb : b ≤ d.history.liveTop + height) :
    Steady A (d.play T wide es) (d.lastHeight T wide height es) ∧
    b ≤ (d.play T wide es).history.liveTop + d.lastHeight T wide height es ∧
    (Fresh A b d ∨ ¬ d.Calm T wide es → Fresh A b (d.play T wide es)) := by
  induction es generalizing d height with
  | nil => exact ⟨hd, hb, fun h => h.resolve_right fun hno => hno trivial⟩
  | cons e es ih =>
    have hstep : Stepped A wide d height e := stepped hd (hes e List.mem_cons_self) hm.1
    have hceiling := hstep.ceiling
    obtain ⟨hsteady, hle, hfresh⟩ := ih hstep.steady
      (fun e' he' => hes e' (List.mem_cons_of_mem _ he')) hm.2 (by omega)
    refine ⟨hsteady, hle, fun h => hfresh ?_⟩
    rcases h with hold | hno
    · exact .inl (hold.step hstep hb)
    · by_cases hnew : d.Renumbers T e
      · exact .inl ((hstep.fresh hnew).imp_right fun hle => by omega)
      · exact .inr fun hcalm => hno ⟨hnew, hcalm⟩

/-- From the start for a row of the history, and for another from a time on when it is still on the
screen, the number `n` names the row that it names at the end. -/
def Named (A : Alacritty T) (wide : Char → Bool) (d : Display τ) (es : List (Step α)) (n : Nat) :
    Prop :=
  ∃ before after, es = before ++ after ∧ (n < d.history.liveTop → before = []) ∧
    (d.history.liveTop ≤ n → (d.play T wide before).history.liveTop ≤ n) ∧
    ∀ middle, middle <+: after →
      (d.play T wide (before ++ middle)).rowOf T A n = (d.play T wide es).rowOf T A n

/-- While no new numbers are given, they grow with the rows that leave the screen, and a row of
the history has the number that it had on the screen. -/
theorem play_calm {es : List (Step α)} (hd : Steady A d height) (hes : ∀ e ∈ es, e.Valid)
    (hm : d.MeetsAll T wide height es) (hcalm : d.Calm T wide es) :
    (d.play T wide es).history.liveTop = d.history.liveTop + d.movedBy T wide A es ∧
    d.history.liveTop + (A.seen (d.play T wide es).term).history.length ≤
      (d.play T wide es).history.liveTop + (A.seen d.term).history.length ∧
    ∀ n, n < (d.play T wide es).history.liveTop →
      (d.play T wide es).history.liveTop ≤
        n + (A.seen (d.play T wide es).term).history.length → Named A wide d es n := by
  induction es generalizing d height with
  | nil =>
    refine ⟨rfl, Nat.le_refl _, fun n hn _ => ⟨[], [], rfl, fun _ => rfl, fun h => h, ?_⟩⟩
    intro middle hmiddle
    rw [List.prefix_nil.mp hmiddle, List.nil_append]
  | cons e es ih =>
    have hstep : Stepped A wide d height e := stepped hd (hes e List.mem_cons_self) hm.1
    have hmoves := hstep.moves hcalm.1
    obtain ⟨htop, holdest, hnamed⟩ := ih hstep.steady
      (fun e' he' => hes e' (List.mem_cons_of_mem _ he')) hm.2 hcalm.2
    have hmtop := hmoves.liveTop
    rw [length_topRows] at hmtop
    have hmoldest := hmoves.oldest
    change (d.play T wide (e :: es)).history.liveTop = _ at htop
    change _ ≤ (d.play T wide (e :: es)).history.liveTop + _ at holdest
    change _ + (A.seen (d.play T wide (e :: es)).term).history.length ≤ _ at holdest
    refine ⟨?_, by omega, fun n hn hkept => ?_⟩
    · simp only [Display.movedBy]
      omega
    · obtain ⟨before, after, heq, hnone, hlive, hsame⟩ := hnamed n hn hkept
      by_cases hnext : n < (d.step T wide e).history.liveTop
      · -- The history has it after the first step, so it names the same row before this step.
        obtain rfl := hnone hnext
        have hfirst := hstep.rowOf hcalm.1 hnext (by omega)
        refine ⟨[], e :: es, rfl, fun _ => rfl, fun h => h, fun middle hmiddle => ?_⟩
        rcases List.prefix_cons_iff.mp hmiddle with rfl | ⟨rest, rfl, hrest⟩
        · exact hfirst.symm.trans (hsame [] List.nil_prefix)
        · rw [heq, List.nil_append] at hrest
          exact hsame rest hrest
      · refine ⟨e :: before, after, congrArg (e :: ·) heq, fun hold => ?_, fun _ => ?_,
          fun middle hmiddle => hsame middle hmiddle⟩
        · have := liveTop_le_step T wide d e
          omega
        · exact hlive (Nat.le_of_not_lt hnext)

end Agend.Scrollback
