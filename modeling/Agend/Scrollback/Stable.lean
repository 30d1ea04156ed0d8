import Agend.Scrollback.Numbers
import Agend.Scrollback.Plain

/-! A row number names one row for as long as the row is kept. -/
namespace Agend.Scrollback

open Library.Scrollback

variable {τ α ρ π : Type} {T : Terminal τ α ρ} {A : Alacritty T} {wide : Char → Bool}
  {P : Parser π α} {s : Screen τ π} {n : Nat}

/-- What reaches the screen: bytes of the agent in pieces of any length, and new sizes. -/
inductive Event where
  | process (bytes : List UInt8)
  | resize (rows columns : Nat)

/-- A size that the holder accepts. -/
def Event.Valid : Event → Prop
  | .process _ => True
  | .resize rows columns => 1 ≤ rows ∧ 1 ≤ columns

namespace Screen

variable (T : Terminal τ α ρ) (wide : Char → Bool) (P : Parser π α)

def event (s : Screen τ π) : Event → Screen τ π
  | .process bytes => s.process T wide P bytes
  | .resize rows columns => s.resize T rows columns

def run (s : Screen τ π) (events : List Event) : Screen τ π := events.foldl (event T wide P) s

/-- The parser actions and resizes of an event. -/
def eventSteps (s : Screen τ π) : Event → List (Step α)
  | .process bytes => if bytes.isEmpty then [] else (P.advance s.parser bytes).2.map .act
  | .resize rows columns => [.resize rows columns]

def steps (s : Screen τ π) : List Event → List (Step α)
  | [] => []
  | e :: es => s.eventSteps P e ++ steps (s.event T wide P e) es

end Screen

theorem play_append (d : Display τ) (es es' : List (Step α)) :
    d.play T wide (es ++ es') = (d.play T wide es).play T wide es' :=
  List.foldl_append

theorem play_actions (d : Display τ) (actions : List (Action α)) :
    d.play T wide (actions.map .act) =
      { d with toTracked := actions.foldl (fun x a => x.handle T wide a) d.toTracked } := by
  induction actions generalizing d with
  | nil => rfl
  | cons a actions ih =>
    rw [List.map_cons, List.foldl_cons]
    exact ih (d.step T wide (.act a))

theorem event_display (e : Event) :
    (s.event T wide P e).toDisplay = s.toDisplay.play T wide (s.eventSteps P e) := by
  cases e with
  | process bytes =>
    simp only [Screen.event, Screen.process, Screen.eventSteps]
    split
    · rfl
    · rw [play_actions]
  | resize rows columns =>
    simp only [Screen.event, Screen.resize, Screen.eventSteps, Display.play, List.foldl_cons,
      List.foldl_nil, Display.step]
    split <;> rfl

/-- How the bytes are cut makes no difference to the numbers. -/
theorem run_display (es : List Event) :
    (s.run T wide P es).toDisplay = s.toDisplay.play T wide (s.steps T wide P es) := by
  induction es generalizing s with
  | nil => rfl
  | cons e es ih =>
    rw [Screen.steps, play_append, ← event_display]
    exact ih

theorem steps_append (es es' : List Event) : s.steps T wide P (es ++ es') =
    s.steps T wide P es ++ (s.run T wide P es).steps T wide P es' := by
  induction es generalizing s with
  | nil => rfl
  | cons e es ih =>
    rw [List.cons_append, Screen.steps, ih, Screen.steps, List.append_assoc]
    rfl

theorem steps_valid (hP : P.Emits) {es : List Event} (hes : ∀ e ∈ es, e.Valid) :
    ∀ e ∈ s.steps T wide P es, e.Valid := by
  induction es generalizing s with
  | nil => exact nofun
  | cons e es ih =>
    intro e' he'
    rcases List.mem_append.mp he' with hfirst | hrest
    · cases e with
      | process bytes =>
        simp only [Screen.eventSteps] at hfirst
        split at hfirst
        · cases hfirst
        · obtain ⟨a, ha, rfl⟩ := List.mem_map.mp hfirst
          exact hP _ _ a ha
      | resize rows columns =>
        cases List.mem_singleton.mp hfirst
        exact hes _ List.mem_cons_self
    · exact ih (fun e'' he'' => hes e'' (List.mem_cons_of_mem _ he'')) e' hrest

theorem steady_new (A : Alacritty T) {rows columns : Nat} (hrows : 1 ≤ rows)
    (hcolumns : 1 ≤ columns) : Steady A (Screen.new T P rows columns).toDisplay rows := by
  have hseen : A.seen (Screen.new T P rows columns).term = _ := A.new rows columns hrows hcolumns
  refine ⟨⟨?_, ?_, ?_, ?_, fun _ => rfl, fun _ => ?_⟩, ?_, fun _ => rfl⟩ <;> rw [hseen]
  · exact hrows
  · exact ⟨fun _ => rfl, fun _ => rfl⟩
  · rfl
  · exact Nat.zero_le _
  · rfl

theorem rowAt_eq_some {f : Frame ρ} {g : Nat → ρ} {k : Nat} {r : ρ}
    (hcells : f.cells = (List.range k).map g) : f.rowAt n = some r ↔
      f.viewportTop ≤ n ∧ n < f.viewportTop + k ∧ g (n - f.viewportTop) = r := by
  unfold Frame.rowAt
  rw [hcells, List.getElem?_map]
  by_cases hle : f.viewportTop ≤ n
  · rw [if_pos hle]
    by_cases hlt : n - f.viewportTop < k
    · rw [List.getElem?_range hlt, Option.map_some, Option.some_inj]
      exact ⟨fun h => ⟨hle, by omega, h⟩, fun h => h.2.2⟩
    · rw [List.getElem?_eq_none (by rw [List.length_range]; omega)]
      exact ⟨nofun, fun h => absurd h.2.1 (by omega)⟩
  · rw [if_neg hle]
    exact ⟨nofun, fun h => absurd h.1 hle⟩

/-- What a frame of the normal screen shows. -/
structure Shows (A : Alacritty T) (s : Screen τ π) (v : Viewport) (f : Frame ρ) : Prop where
  liveTop : f.liveTop = s.history.liveTop
  historyOldest : f.historyOldest = s.history.liveTop - (A.seen s.term).history.length
  range : ∀ n r, f.rowAt n = some r →
    f.historyOldest ≤ n ∧ n < s.history.liveTop + s.rows
  row : ∀ n r, f.rowAt n = some r → s.toDisplay.rowOf T A n = some r
  pinned : ∀ n, v.top = some n → f.historyOldest ≤ n → n < f.liveTop →
    f.viewportTop = n ∧ f.viewportClamped = false ∧ (f.rowAt n).isSome

theorem frame_spec (hs : Agree A s.toTracked) (hrows : s.rows = (A.seen s.term).lines)
    {minimum : Nat} {v : Viewport} {f : Frame ρ} (hf : s.frame T minimum v = .ok f)
    (hnormal : f.alternateScreen = false) : Shows A s v f := by
  unfold Screen.frame at hf
  split at hf
  · cases hf
  case isFalse hsize =>
    split at hf
    · cases hf
    · have hscreen : T.altScreen s.term = false := by
        cases hf
        exact hnormal
      have halternate := hscreen
      rw [A.altScreen] at halternate
      have hlength : T.historySize s.term = (A.seen s.term).history.length := by
        rw [A.historySize, halternate]
        rfl
      have hfounded := hs.founded (hs.normal halternate)
      have hrow := A.row s.term halternate
      simp only [hscreen, hlength, Bool.false_eq_true, if_false, Except.ok.injEq] at hf
      subst hf
      refine ⟨rfl, rfl, fun n r hn => ?_, fun n r hn => ?_, fun n htop hle hlt => ?_⟩
      · obtain ⟨hle, hlt, -⟩ := (rowAt_eq_some rfl).mp hn
        dsimp only at hle hlt ⊢
        omega
      · obtain ⟨hle, hlt, rfl⟩ := (rowAt_eq_some rfl).mp hn
        dsimp only at hlt hle ⊢
        unfold Display.rowOf
        by_cases hold : n < s.history.liveTop
        · unfold numbered
          rw [if_pos hold, if_pos ⟨hold, by omega⟩, hrow _ (by omega)]
          congr 2
          omega
        · rw [if_neg hold, if_pos (by omega)]
          congr 2
          omega
      · dsimp only at hle hlt ⊢
        have hview : min (max n (s.history.liveTop - (A.seen s.term).history.length))
            (s.history.liveTop + (s.rows - v.rows)) = n := by omega
        rw [htop]
        refine ⟨hview, by simp [hview], Option.isSome_iff_exists.mpr
          ⟨_, (rowAt_eq_some rfl).mpr ⟨Nat.le_of_eq hview, ?_, rfl⟩⟩⟩
        dsimp only [Option.getD_some]
        omega

/-- A view that is opened on the screen, then one after some events. A frame shows under a number
the row of this number. While no rows get new numbers, the numbers grow with the rows that leave
the normal screen, and a number of the history names the row that it named before, there or on the
screen; else no number that was shown is shown again. -/
structure NumbersStable (A : Alacritty T) (wide : Char → Bool) (P : Parser π α) (s : Screen τ π)
    (es : List Event) : Prop where
  grows : s.history.liveTop ≤ (s.run T wide P es).history.liveTop
  counts : s.toDisplay.Calm T wide (s.steps T wide P es) →
    (s.run T wide P es).history.liveTop =
      s.history.liveTop + s.toDisplay.movedBy T wide A (s.steps T wide P es)
  shows : ∀ minimum v f, (s.run T wide P es).frame T minimum v = .ok f →
    f.alternateScreen = false → f.liveTop = (s.run T wide P es).history.liveTop ∧
      (∀ n r, f.rowAt n = some r → (s.run T wide P es).toDisplay.rowOf T A n = some r) ∧
      ∀ n, v.top = some n → f.historyOldest ≤ n → n < f.liveTop →
        f.viewportTop = n ∧ f.viewportClamped = false ∧ (f.rowAt n).isSome
  keeps : s.toDisplay.Calm T wide (s.steps T wide P es) →
    ∀ minimum v v' f f', s.frame T minimum v = .ok f →
      (s.run T wide P es).frame T minimum v' = .ok f' →
      f.alternateScreen = false → f'.alternateScreen = false →
      ∀ n r, n < f'.liveTop → f'.rowAt n = some r →
        (n < f.liveTop → ∀ r', f.rowAt n = some r' → r' = r) ∧
        ∃ before after, s.steps T wide P es = before ++ after ∧
          (n < f.liveTop → before = []) ∧
          (f.liveTop ≤ n → (s.toDisplay.play T wide before).history.liveTop ≤ n) ∧
          ∀ middle, middle <+: after →
            (s.toDisplay.play T wide (before ++ middle)).rowOf T A n = some r
  fresh : ¬ s.toDisplay.Calm T wide (s.steps T wide P es) →
    ∀ minimum v v' f f', s.frame T minimum v = .ok f →
      (s.run T wide P es).frame T minimum v' = .ok f' →
      f.alternateScreen = false → f'.alternateScreen = false →
      ∀ n, (f.rowAt n).isSome → f'.rowAt n = none

theorem frame_normal (A : Alacritty T) {minimum : Nat} {v : Viewport} {f : Frame ρ}
    (hf : s.frame T minimum v = .ok f) (hnormal : f.alternateScreen = false) :
    (A.seen s.term).alternate = false := by
  unfold Screen.frame at hf
  split at hf
  · cases hf
  · split at hf
    · cases hf
    · cases hf
      rw [← A.altScreen]
      exact hnormal

/-- Every run in which the columns are only switched while the scrolling region is the whole screen,
and in which no rows get new numbers while there are fewer of them than were shown. -/
theorem row_numbers_stable (A : Alacritty T) (hP : P.Emits) {rows columns : Nat}
    (hrows : 1 ≤ rows) (hcolumns : 1 ≤ columns) {es es' : List Event}
    (hvalid : ∀ e ∈ es ++ es', e.Valid)
    (hmeets : (Screen.new T P rows columns).toDisplay.MeetsAll T wide rows
      ((Screen.new T P rows columns).steps T wide P (es ++ es'))) :
    NumbersStable A wide P ((Screen.new T P rows columns).run T wide P es) es' := by
  have hnew := steady_new (P := P) A hrows hcolumns
  rw [steps_append, meetsAll_append, ← run_display] at hmeets
  obtain ⟨hbefore, hafter⟩ := hmeets
  obtain ⟨hsteady, -, -⟩ := play_spec hnew
    (steps_valid hP fun e he => hvalid e (List.mem_append_left _ he)) hbefore (Nat.le_refl _)
  rw [← run_display] at hsteady
  generalize (Screen.new T P rows columns).run T wide P es = s at hsteady hafter
  generalize (Screen.new T P rows columns).toDisplay.lastHeight T wide rows
    ((Screen.new T P rows columns).steps T wide P es) = height at hsteady hafter
  have hsteps : ∀ e ∈ s.steps T wide P es', e.Valid :=
    steps_valid hP fun e he => hvalid e (List.mem_append_right _ he)
  obtain ⟨hsteady', -, hfresh⟩ := play_spec hsteady hsteps hafter (Nat.le_refl _)
  rw [← run_display] at hsteady' hfresh
  refine ⟨?_, fun hcalm => ?_, fun minimum v f hf hnormal => ?_,
    fun hcalm minimum v v' f f' hf hf' hnormal hnormal' n r hn hr => ?_,
    fun hno minimum v v' f f' hf hf' hnormal hnormal' n hshown => ?_⟩
  · have hle := liveTop_le_play T wide s.toDisplay (s.steps T wide P es')
    rwa [← run_display] at hle
  · obtain ⟨htop, -, -⟩ := play_calm hsteady hsteps hafter hcalm
    rwa [← run_display] at htop
  · have hshows := frame_spec hsteady'.agree hsteady'.rows hf hnormal
    exact ⟨hshows.liveTop, hshows.row, hshows.pinned⟩
  · obtain ⟨-, -, hnamed⟩ := play_calm hsteady hsteps hafter hcalm
    rw [← run_display] at hnamed
    have hshows := frame_spec hsteady.agree hsteady.rows hf hnormal
    have hshows' := frame_spec hsteady'.agree hsteady'.rows hf' hnormal'
    have hkept := (hshows'.range n r hr).1
    rw [hshows'.historyOldest] at hkept
    rw [hshows'.liveTop] at hn
    obtain ⟨before, after, heq, hnone, hlive, hsame⟩ := hnamed n hn (by omega)
    rw [← run_display, hshows'.row n r hr] at hsame
    rw [hshows.liveTop]
    refine ⟨fun hold r' hr' => ?_, before, after, heq, hnone, hlive, hsame⟩
    -- A number of the history names its row from the start.
    have hfirst := hsame [] List.nil_prefix
    rw [hnone hold] at hfirst
    exact Option.some.inj ((hshows.row n r' hr').symm.trans hfirst)
  · have hshows := frame_spec hsteady.agree hsteady.rows hf hnormal
    have hshows' := frame_spec hsteady'.agree hsteady'.rows hf' hnormal'
    obtain ⟨r, hr⟩ := Option.isSome_iff_exists.mp hshown
    have hbefore := (hshows.range n r hr).2
    have hheight := hsteady.height (hsteady.agree.normal (frame_normal A hf hnormal))
    have hnone := hsteady'.agree.normal (frame_normal A hf' hnormal')
    rcases hfresh (.inr hno) with hpending | hle
    · rw [hnone] at hpending
      cases hpending
    · refine Option.eq_none_iff_forall_ne_some.mpr fun r' hr' => ?_
      have hkept := (hshows'.range n r' hr').1
      rw [hshows'.historyOldest] at hkept
      omega

def typed (text : List Char) : Event := .process (text.map fun c => UInt8.ofNat c.toNat)

/-- A screen of three rows that has scrolled, and then switches the columns and scrolls on, with all
its rows under their numbers; and gets one more row. -/
theorem row_numbers_stable_scrolled :
    let s := (Screen.new plain plainParser 3 8).run plain (fun _ => false) plainParser
      [typed ['a', '\n', '\x0d', 'b', '\n', '\x0d', 'c', '\n', 'd']]
    let scrolled := [typed ['\x1b', '[', '?', '3', 'h', '\n', '\n', '\n', 'e']]
    s.toDisplay.Calm plain (fun _ => false) (s.steps plain (fun _ => false) plainParser scrolled) ∧
      NumbersStable plainAlacritty (fun _ => false) plainParser s scrolled ∧
      NumbersStable plainAlacritty (fun _ => false) plainParser s (scrolled ++ [.resize 4 8]) := by
  intro s scrolled
  refine ⟨by decide +kernel, ?_, ?_⟩
  · exact row_numbers_stable plainAlacritty plainParser_emits (by decide) (by decide)
      (by simp [scrolled, typed, Event.Valid]) (by decide +kernel)
  · exact row_numbers_stable plainAlacritty plainParser_emits (by decide) (by decide)
      (by simp [scrolled, typed, Event.Valid]) (by decide +kernel)

/-- The columns are switched while the scrolling region is a part of the screen: the row that leaves
the screen then is not counted. And a screen of three rows gets two: the number of its last row is
that of the first one. -/
theorem row_numbers_reused :
    ¬ NumbersStable plainAlacritty (fun _ => false) plainParser
      ((Screen.new plain plainParser 3 8).run plain (fun _ => false) plainParser
        [typed ['\x1b', '[', '2', ';', '3', 'r', '\x1b', '[', '?', '3', 'h']])
      [typed ['\n', '\n', '\n']] ∧
    ¬ NumbersStable plainAlacritty (fun _ => false) plainParser
      (Screen.new plain plainParser 3 8) [.resize 2 8] := by
  constructor
  · intro h
    have hcounts := h.counts (by decide +kernel)
    revert hcounts
    decide +kernel
  · intro h
    have hbefore : (Screen.new plain plainParser 3 8).frame plain 1 ⟨none, 3⟩ = .ok
        { revision := 0, rows := 3, columns := 8, alternateScreen := false, historyOldest := 0,
          liveTop := 0, viewportTop := 0, viewportClamped := false, cells := [[], [], []],
          cursorRow := 0, cursorColumn := 0, cursorVisible := true } := by decide +kernel
    have hafter : ((Screen.new plain plainParser 3 8).run plain (fun _ => false) plainParser
        [.resize 2 8]).frame plain 1 ⟨none, 2⟩ = .ok
        { revision := 1, rows := 2, columns := 8, alternateScreen := false, historyOldest := 2,
          liveTop := 2, viewportTop := 2, viewportClamped := false, cells := [[], []],
          cursorRow := 0, cursorColumn := 0, cursorVisible := true } := by decide +kernel
    cases h.fresh (by decide +kernel) _ _ _ _ _ hbefore hafter rfl rfl 2 rfl

end Agend.Scrollback
