import Mathlib.Order.WellFounded

/-! Finite runs of a labelled transition system, newest transition first, and what holds since. -/
namespace Agend.Library

variable {σ ε ο : Type*}

/-- One accepted step with the states around it. -/
structure Transition (σ ε ο : Type*) where
  before : σ
  event : ε
  after : σ
  output : ο

/-- Initial states and a step relation; a deterministic partial step is a special case. -/
structure Machine (σ ε ο : Type*) where
  init : σ → Prop
  step : σ → ε → σ → ο → Prop

namespace Machine

variable (M : Machine σ ε ο)

inductive Run : List (Transition σ ε ο) → σ → Prop
  | start {s : σ} (hs : M.init s) : Run [] s
  | snoc {h : List (Transition σ ε ο)} {s s' : σ} {e : ε} {o : ο}
      (hr : Run h s) (hs : M.step s e s' o) : Run (⟨s, e, s', o⟩ :: h) s'

def Reachable (s : σ) : Prop := ∃ h, M.Run h s

variable {M}

theorem Run.reachable {h : List (Transition σ ε ο)} {s : σ} (hr : M.Run h s) : M.Reachable s :=
  ⟨h, hr⟩

/-- The invariant rule: `P` holds initially and each step extends it. -/
theorem Run.invariant {P : List (Transition σ ε ο) → σ → Prop}
    (init : ∀ s, M.init s → P [] s)
    (step : ∀ h s e s' o, M.Run h s → P h s → M.step s e s' o → P (⟨s, e, s', o⟩ :: h) s')
    {h : List (Transition σ ε ο)} {s : σ} (hr : M.Run h s) : P h s := by
  induction hr with
  | start hs => exact init _ hs
  | snoc hr hs ih => exact step _ _ _ _ _ hr ih hs

theorem Reachable.invariant {P : σ → Prop} (init : ∀ s, M.init s → P s)
    (step : ∀ s e s' o, P s → M.step s e s' o → P s') {s : σ} (hr : M.Reachable s) : P s := by
  obtain ⟨h, hr⟩ := hr
  exact Run.invariant (P := fun _ s => P s) init (fun _ s e s' o _ => step s e s' o) hr

/-- Every transition of a run is a step from a reachable state. -/
theorem Run.of_mem {h : List (Transition σ ε ο)} {s : σ} (hr : M.Run h s) :
    ∀ t ∈ h, M.Reachable t.before ∧ M.step t.before t.event t.after t.output := by
  induction hr with
  | start => simp
  | snoc hr hs ih =>
    intro t ht
    rcases List.mem_cons.mp ht with rfl | ht
    · exact ⟨⟨_, hr⟩, hs⟩
    · exact ih t ht

/-- What a transition marks stays marked. -/
theorem Run.marked {E : Transition σ ε ο → Prop} {D : σ → Prop}
    (mark : ∀ s e s' o, M.Reachable s → M.step s e s' o → E ⟨s, e, s', o⟩ → D s')
    (keep : ∀ s e s' o, M.Reachable s → M.step s e s' o → D s → D s')
    {h : List (Transition σ ε ο)} {s : σ} (hr : M.Run h s) : ∀ t ∈ h, E t → D s := by
  induction hr with
  | start => simp
  | snoc hr hs ih =>
    intro t ht he
    rcases List.mem_cons.mp ht with rfl | ht
    · exact mark _ _ _ _ ⟨_, hr⟩ hs he
    · exact keep _ _ _ _ ⟨_, hr⟩ hs (ih t ht he)

/-- What a mark blocks never happens after it. -/
theorem Run.never_after {E E' : Transition σ ε ο → Prop} {D : σ → Prop}
    (mark : ∀ s e s' o, M.Reachable s → M.step s e s' o → E ⟨s, e, s', o⟩ → D s')
    (keep : ∀ s e s' o, M.Reachable s → M.step s e s' o → D s → D s')
    (block : ∀ s e s' o, M.Reachable s → M.step s e s' o → D s → ¬ E' ⟨s, e, s', o⟩)
    {h : List (Transition σ ε ο)} {s : σ} (hr : M.Run h s) :
    h.Pairwise fun later earlier => E earlier → ¬ E' later := by
  induction hr with
  | start => exact List.Pairwise.nil
  | snoc hr hs ih =>
    exact List.pairwise_cons.mpr ⟨fun t ht he => block _ _ _ _ ⟨_, hr⟩ hs
      (hr.marked mark keep t ht he), ih⟩

/-- A transition that its own mark blocks happens at most once. -/
theorem Run.at_most_once {E : Transition σ ε ο → Prop} {D : σ → Prop}
    (mark : ∀ s e s' o, M.Reachable s → M.step s e s' o → E ⟨s, e, s', o⟩ → D s')
    (keep : ∀ s e s' o, M.Reachable s → M.step s e s' o → D s → D s')
    (block : ∀ s e s' o, M.Reachable s → M.step s e s' o → D s → ¬ E ⟨s, e, s', o⟩)
    {h : List (Transition σ ε ο)} {s : σ} (hr : M.Run h s) :
    h.Pairwise fun later earlier => E earlier → ¬ E later :=
  hr.never_after mark keep block

/-- A run up to one of its transitions. -/
theorem Run.split {newer older : List (Transition σ ε ο)} {t : Transition σ ε ο} {s : σ}
    (hr : M.Run (newer ++ t :: older) s) :
    M.Run older t.before ∧ M.step t.before t.event t.after t.output := by
  induction newer generalizing s with
  | nil =>
    cases hr with
    | snoc hr hs => exact ⟨hr, hs⟩
  | cons _ newer ih =>
    cases hr with
    | snoc hr _ => exact ih hr

/-- What holds of any two transitions as they stand in the run. -/
theorem pairwise_of_split {α : Type*} {l : List α} {P : α → α → Prop}
    (h : ∀ newer mid older u t, l = newer ++ u :: (mid ++ t :: older) → P u t) : l.Pairwise P := by
  induction l with
  | nil => exact List.Pairwise.nil
  | cons u l ih =>
    refine List.pairwise_cons.mpr ⟨fun t ht => ?_, ih fun newer mid older u' t he =>
      h (u :: newer) mid older u' t (congrArg (u :: ·) he)⟩
    obtain ⟨mid, older, rfl⟩ := List.append_of_mem ht
    exact h [] mid older u t rfl

/-- What holds right after a transition and is kept by every step holds at the end. -/
theorem Run.since {D : σ → Prop}
    (keep : ∀ s e s' o, M.Reachable s → M.step s e s' o → D s → D s')
    {newer older : List (Transition σ ε ο)} {t : Transition σ ε ο} {s : σ}
    (hr : M.Run (newer ++ t :: older) s) (hD : D t.after) : D s := by
  induction newer generalizing s with
  | nil =>
    cases hr with
    | snoc hr hs => exact hD
  | cons _ newer ih =>
    cases hr with
    | snoc hr hs => exact keep _ _ _ _ hr.reachable hs (ih hr)

/-- What holds right after a transition holds until some later one ends it. -/
theorem Run.unless {D : σ → Prop} {E : Transition σ ε ο → Prop}
    (keep : ∀ s e s' o, M.Reachable s → M.step s e s' o → D s → D s' ∨ E ⟨s, e, s', o⟩)
    {newer older : List (Transition σ ε ο)} {t : Transition σ ε ο} {s : σ}
    (hr : M.Run (newer ++ t :: older) s) (hD : D t.after) : D s ∨ ∃ u ∈ newer, E u := by
  induction newer generalizing s with
  | nil =>
    cases hr with
    | snoc hr hs => exact Or.inl hD
  | cons _ newer ih =>
    cases hr with
    | snoc hr hs =>
      rcases ih hr with hD | ⟨u, hu, he⟩
      · rcases keep _ _ _ _ hr.reachable hs hD with hD | he
        · exact Or.inl hD
        · exact Or.inr ⟨_, List.mem_cons_self, he⟩
      · exact Or.inr ⟨u, List.mem_cons_of_mem _ hu, he⟩

/-- What holds right after a transition and every later one holds around each of these. -/
theorem Run.during {P : σ → Prop} {newer older : List (Transition σ ε ο)} {t : Transition σ ε ο}
    {s : σ} (hr : M.Run (newer ++ t :: older) s) (ht : P t.after) (hn : ∀ u ∈ newer, P u.after) :
    P s ∧ ∀ u ∈ newer, P u.before := by
  induction newer generalizing s with
  | nil =>
    cases hr with
    | snoc hr hs => exact ⟨ht, nofun⟩
  | cons v newer ih =>
    cases hr with
    | snoc hr hs =>
      obtain ⟨hP, hbefore⟩ := ih hr fun u hu => hn u (List.mem_cons_of_mem _ hu)
      refine ⟨hn _ List.mem_cons_self, fun u hu => ?_⟩
      rcases List.mem_cons.mp hu with rfl | hu
      · exact hP
      · exact hbefore u hu

/-- Events one after the other; one that does not fit ends the play. -/
def play (next : σ → ε → Option (σ × ο)) (h : List (Transition σ ε ο)) (s : σ) :
    List ε → List (Transition σ ε ο) × σ
  | [] => (h, s)
  | e :: rest =>
    match next s e with
    | some (s', o) => play next (⟨s, e, s', o⟩ :: h) s' rest
    | none => (h, s)

/-- A step that says nothing, as a play takes it. -/
theorem step_of_silent {o : Option σ} {s : σ} {u : Unit} (h : o.map (·, ()) = some (s, u)) :
    o = some s := by
  obtain ⟨s', ho, hs⟩ := Option.map_eq_some_iff.mp h
  obtain ⟨rfl, -⟩ := Prod.mk.inj hs
  exact ho

/-- A play of the machine's own steps is a run. -/
theorem Run.play {next : σ → ε → Option (σ × ο)}
    (hM : ∀ s e s' o, next s e = some (s', o) → M.step s e s' o) {l : List ε}
    {h : List (Transition σ ε ο)} {s : σ} (hr : M.Run h s) :
    M.Run (Machine.play next h s l).1 (Machine.play next h s l).2 := by
  induction l generalizing h s with
  | nil => exact hr
  | cons e rest ih =>
    unfold Machine.play
    split
    · rename_i s' o hs
      exact ih (hr.snoc (hM _ _ _ _ hs))
    · exact hr

/-- Progress: while the goal is not reached some good step shrinks the measure, so a run of good
steps reaches it. -/
theorem Run.leads_to {α : Type*} [Preorder α] [WellFoundedLT α] {P goal : σ → Prop}
    {good : σ → ε → Prop} (measure : σ → α)
    (progress : ∀ s, M.Reachable s → P s → ∃ e s' o, M.step s e s' o ∧ good s e ∧
      (goal s' ∨ P s' ∧ measure s' < measure s))
    {h : List (Transition σ ε ο)} {s : σ} (hr : M.Run h s) (hP : P s) :
    ∃ newer s', M.Run (newer ++ h) s' ∧ goal s' ∧ ∀ t ∈ newer, good t.before t.event := by
  induction hm : measure s using WellFoundedLT.induction generalizing s h with
  | ind a ih =>
    obtain ⟨e, s1, o, hs, hg, hor⟩ := progress s hr.reachable hP
    rcases hor with hgoal | ⟨hP1, hlt⟩
    · exact ⟨[⟨s, e, s1, o⟩], s1, hr.snoc hs, hgoal, by simpa using hg⟩
    · obtain ⟨newer, s', hrun, hgoal, hall⟩ := ih (measure s1) (hm ▸ hlt) (hr.snoc hs) hP1 rfl
      refine ⟨newer ++ [⟨s, e, s1, o⟩], s', by simpa using hrun, hgoal, fun t ht => ?_⟩
      rcases List.mem_append.mp ht with ht | ht
      · exact hall t ht
      · rw [List.mem_singleton.mp ht]
        exact hg

end Machine

/-- `P` happened at a transition later than every transition that satisfies `stop`. -/
def Since (stop P : Transition σ ε ο → Prop) : List (Transition σ ε ο) → Prop
  | [] => False
  | t :: earlier => ¬ stop t ∧ (P t ∨ Since stop P earlier)

theorem Since.mono {stop P P' : Transition σ ε ο → Prop} (hP : ∀ t, P t → P' t)
    {h : List (Transition σ ε ο)} (hs : Since stop P h) : Since stop P' h := by
  induction h with
  | nil => exact hs
  | cons t earlier ih =>
    obtain ⟨hno, hp⟩ := hs
    refine ⟨hno, ?_⟩
    rcases hp with hp | hp
    · exact Or.inl (hP t hp)
    · exact Or.inr (ih hp)

end Agend.Library
