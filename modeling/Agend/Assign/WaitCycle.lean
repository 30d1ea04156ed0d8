import Agend.Library.Reach

/-! Who waits for whom in a team, and the check made before one more wait is added. -/
namespace Agend.Assign

open Relation Library

structure WaitEdge where
  teamId : String
  waiter : String
  waitsFor : String
deriving DecidableEq

/-- Whether adding an edge would close a wait cycle in the same team. -/
def createsWaitCycle (existing : List WaitEdge) (new : WaitEdge) : Bool :=
  if new.waiter = new.waitsFor then true
  else
    search WaitEdge.waiter WaitEdge.waitsFor (existing.filter (·.teamId = new.teamId))
      new.waiter [new.waitsFor] []

/-- The wait graph of one team. -/
def Waits (edges : List WaitEdge) (team a b : String) : Prop :=
  ∃ e ∈ edges, e.teamId = team ∧ e.waiter = a ∧ e.waitsFor = b

theorem edge_filter_iff (edges : List WaitEdge) (team : String) :
    Edge WaitEdge.waiter WaitEdge.waitsFor (edges.filter (·.teamId = team)) = Waits edges team := by
  funext a b
  simp only [Edge, Waits, List.mem_filter, decide_eq_true_eq, and_assoc]

theorem createsWaitCycle_iff (existing : List WaitEdge) (new : WaitEdge) :
    createsWaitCycle existing new = true ↔
      ReflTransGen (Waits existing new.teamId) new.waitsFor new.waiter := by
  rw [createsWaitCycle, ← edge_filter_iff]
  split
  case isTrue hself => exact iff_of_true rfl (hself ▸ .refl)
  case isFalse => exact search_iff

/-- The waits of a graph with one more edge, wherever the edge stands in the list. -/
theorem waits_insert {before after : List WaitEdge} {new : WaitEdge} {team a b : String} :
    Waits (before ++ new :: after) team a b ↔
      Waits (before ++ after) team a b ∨
        new.teamId = team ∧ a = new.waiter ∧ b = new.waitsFor := by
  constructor
  · rintro ⟨e, he, hteam, hwaiter, hfor⟩
    rcases List.mem_append.mp he with hleft | hright
    · exact .inl ⟨e, List.mem_append_left _ hleft, hteam, hwaiter, hfor⟩
    · rcases List.mem_cons.mp hright with rfl | hright
      · exact .inr ⟨hteam, hwaiter.symm, hfor.symm⟩
      · exact .inl ⟨e, List.mem_append_right _ hright, hteam, hwaiter, hfor⟩
  · rintro (⟨e, he, hall⟩ | ⟨hteam, rfl, rfl⟩)
    · refine ⟨e, ?_, hall⟩
      rcases List.mem_append.mp he with hleft | hright
      · exact List.mem_append_left _ hleft
      · exact List.mem_append_right _ (List.mem_cons_of_mem _ hright)
    · exact ⟨new, List.mem_append_right _ List.mem_cons_self, hteam, rfl, rfl⟩

/-- An edge lies on a cycle of its team: a path leads from its end back to its start. -/
def OnCycle (edges : List WaitEdge) (e : WaitEdge) : Prop :=
  e ∈ edges ∧ ReflTransGen (Waits edges e.teamId) e.waitsFor e.waiter

/-- The new edge itself is of no use on a path from its end to its start. -/
theorem onCycle_insert {before after : List WaitEdge} {new : WaitEdge} :
    OnCycle (before ++ new :: after) new ↔
      ReflTransGen (Waits (before ++ after) new.teamId) new.waitsFor new.waiter := by
  have hmem : new ∈ before ++ new :: after := List.mem_append_right _ List.mem_cons_self
  constructor
  · rintro ⟨-, hpath⟩
    rcases reflTransGen_iff_eq_or_transGen.mp hpath with heq | htrans
    · exact heq ▸ .refl
    · have hstep : ∀ u v, Waits (before ++ new :: after) new.teamId u v →
          Waits (before ++ after) new.teamId u v ∨ u = new.waiter ∧ v = new.waitsFor := by
        intro u v huv
        exact (waits_insert.mp huv).imp_right And.right
      rcases transGen_insert hstep htrans with hold | ⟨hto, -⟩
      · exact hold.to_reflTransGen
      · exact hto
  · exact fun hpath => ⟨hmem, ReflTransGen.mono
      (fun u v huv => waits_insert.mpr (.inl huv)) _ _ hpath⟩

/-- The graphs that come of adding only edges for which the check returned false. -/
inductive Built : List WaitEdge → Prop
  | nil : Built []
  | add {before after : List WaitEdge} {new : WaitEdge} (built : Built (before ++ after))
      (check : createsWaitCycle (before ++ after) new = false) : Built (before ++ new :: after)

theorem Built.acyclic {edges : List WaitEdge} (h : Built edges) (team : String) :
    Acyclic (Waits edges team) := by
  induction h with
  | nil =>
    intro x hcycle
    obtain ⟨y, ⟨e, he, -⟩, -⟩ := (TransGen.head'_iff).mp hcycle
    exact List.not_mem_nil he
  | @add before after new built check ih =>
    by_cases hteam : new.teamId = team
    · have hno : ¬ ReflTransGen (Waits (before ++ after) team) new.waitsFor new.waiter := by
        rw [← hteam, ← createsWaitCycle_iff, check]
        exact Bool.false_ne_true
      exact ih.insert (fun u v huv => (waits_insert.mp huv).imp_right And.right) hno
    · intro x hcycle
      refine ih x (TransGen.mono (fun u v huv => ?_) _ _ hcycle)
      exact (waits_insert.mp huv).resolve_right fun hnew => hteam hnew.1

/-- The check is exact, and a graph that was built under it has no cycle in any team. -/
theorem wait_cycle_exact :
    (∀ (before after : List WaitEdge) (new : WaitEdge),
      (createsWaitCycle (before ++ after) new = true ↔
        ReflTransGen (Waits (before ++ after) new.teamId) new.waitsFor new.waiter) ∧
      (createsWaitCycle (before ++ after) new = true ↔ OnCycle (before ++ new :: after) new)) ∧
    ∀ edges : List WaitEdge, Built edges → ∀ team : String, Acyclic (Waits edges team) := by
  refine ⟨fun before after new => ⟨createsWaitCycle_iff _ new, ?_⟩, fun _ h => h.acyclic⟩
  rw [createsWaitCycle_iff, onCycle_insert]

/-- Two waits in a row are let in and the third, back to the first waiter, is not. -/
theorem wait_cycle_exact_three :
    (∃ edges, edges = [WaitEdge.mk "t" "b" "c", ⟨"t", "a", "b"⟩] ∧ Built edges ∧
      Acyclic (Waits edges "t")) ∧
    createsWaitCycle [⟨"t", "b", "c"⟩, ⟨"t", "a", "b"⟩] ⟨"t", "c", "a"⟩ = true := by
  have hone : Built [⟨"t", "a", "b"⟩] :=
    @Built.add [] [] _ .nil (by simp [createsWaitCycle, search, successors])
  have htwo : Built [⟨"t", "b", "c"⟩, ⟨"t", "a", "b"⟩] :=
    @Built.add [] _ _ hone (by simp [createsWaitCycle, search, successors])
  refine ⟨⟨_, rfl, htwo, wait_cycle_exact.2 _ htwo "t"⟩, ?_⟩
  simp [createsWaitCycle, search, successors]

end Agend.Assign
