import Mathlib.Logic.Relation

/-! Search along the edges of a finite multigraph, with a stack and the nodes that were seen. -/
namespace Agend.Library

open Relation

section

variable {ε α : Type*} (src dst : ε → α) (edges : List ε)

/-- One edge of the multigraph leads from the first node to the second. -/
def Edge (a b : α) : Prop := ∃ e ∈ edges, src e = a ∧ dst e = b

variable {src dst edges}

/-- What leaves a visited node is visited or waits on the stack. -/
def Frontier (src dst : ε → α) (edges : List ε) (pending visited : List α) : Prop :=
  ∀ a ∈ visited, ∀ b, Edge src dst edges a b → b ∈ visited ∨ b ∈ pending

theorem Frontier.skip {a : α} {pending visited : List α}
    (hf : Frontier src dst edges (a :: pending) visited) (ha : a ∈ visited) :
    Frontier src dst edges pending visited := by
  intro x hx b hedge
  rcases hf x hx b hedge with hb | hb
  · exact .inl hb
  · rcases List.mem_cons.mp hb with rfl | hb
    · exact .inl ha
    · exact .inr hb

theorem Frontier.reach {closed : List α} {a b : α} (hf : Frontier src dst edges [] closed)
    (ha : a ∈ closed) (hreach : ReflTransGen (Edge src dst edges) a b) : b ∈ closed := by
  induction hreach with
  | refl => exact ha
  | tail _ hedge ih => exact (hf _ ih _ hedge).resolve_right List.not_mem_nil

end

section

variable {ε α : Type*} [DecidableEq α] (src dst : ε → α) (edges : List ε)

def successors (a : α) : List α := (edges.filter (src · = a)).map dst

variable {edges src} {visited : List α} {a : α} in
/-- The edges out of a new node are not edges out of an unseen one any more. -/
theorem unseen_cons (h : a ∉ visited) :
    (edges.filter (src · = a)).length + (edges.filter (src · ∉ a :: visited)).length =
      (edges.filter (src · ∉ visited)).length := by
  induction edges with
  | nil => rfl
  | cons e edges ih =>
    by_cases he : src e = a
    · have hnot : src e ∉ visited := he ▸ h
      have hmem : src e ∈ a :: visited := he ▸ List.mem_cons_self
      simp only [List.filter_cons, he, decide_true, if_true, List.length_cons] at ih ⊢
      rw [he] at hnot hmem
      simp only [hnot, hmem, not_true_eq_false, not_false_eq_true, decide_true, decide_false,
        if_true, Bool.false_eq_true, if_false, List.length_cons]
      omega
    · by_cases hv : src e ∈ visited
      · have hmem : src e ∈ a :: visited := List.mem_cons_of_mem _ hv
        simpa [List.filter_cons, he, hv, hmem] using ih
      · have hmem : src e ∉ a :: visited := List.not_mem_cons_of_ne_of_not_mem he hv
        simp only [List.filter_cons, he, hv, hmem, not_false_eq_true, decide_true, decide_false,
          if_true, Bool.false_eq_true, if_false, List.length_cons]
        omega

/-- Whether the goal is met; the top of the stack is its head. -/
def search (goal : α) (pending visited : List α) : Bool :=
  match pending with
  | [] => false
  | current :: rest =>
    if current = goal then true
    else if current ∈ visited then search goal rest visited
    else search goal ((successors src dst edges current).reverse ++ rest) (current :: visited)
termination_by pending.length + (edges.filter (src · ∉ visited)).length
decreasing_by
  · simp only [List.length_cons]
    omega
  · rename_i hnew
    have hsum := @unseen_cons _ _ _ src edges _ _ hnew
    simp only [List.length_append, List.length_reverse, successors, List.length_map,
      List.length_cons]
    omega

theorem mem_successors {a b : α} : b ∈ successors src dst edges a ↔ Edge src dst edges a b := by
  simp only [successors, List.mem_map, List.mem_filter, decide_eq_true_eq, Edge, and_assoc]

variable {src dst edges}

/-- A goal that is met is reached from a node of the stack. -/
theorem search_sound {goal : α} {pending visited : List α}
    (h : search src dst edges goal pending visited = true) :
    ∃ a ∈ pending, ReflTransGen (Edge src dst edges) a goal := by
  induction pending, visited using search.induct src dst edges goal with
  | case1 => simp [search] at h
  | case2 visited rest => exact ⟨goal, List.mem_cons_self, .refl⟩
  | case3 visited current rest hne hseen ih =>
    rw [search, if_neg hne, if_pos hseen] at h
    obtain ⟨a, ha, hreach⟩ := ih h
    exact ⟨a, List.mem_cons_of_mem _ ha, hreach⟩
  | case4 visited current rest hne hnew ih =>
    rw [search, if_neg hne, if_neg hnew] at h
    obtain ⟨a, ha, hreach⟩ := ih h
    rcases List.mem_append.mp ha with hstep | hrest
    · have hedge : Edge src dst edges current a :=
        (mem_successors src dst edges).mp (List.mem_reverse.mp hstep)
      exact ⟨current, List.mem_cons_self, .head hedge hreach⟩
    · exact ⟨a, List.mem_cons_of_mem _ hrest, hreach⟩

theorem Frontier.visit {a : α} {pending visited : List α}
    (hf : Frontier src dst edges (a :: pending) visited) :
    Frontier src dst edges ((successors src dst edges a).reverse ++ pending) (a :: visited) := by
  intro x hx b hedge
  rcases List.mem_cons.mp hx with rfl | hx
  · have hb := List.mem_reverse.mpr ((mem_successors src dst edges).mpr hedge)
    exact .inr (List.mem_append_left _ hb)
  · rcases hf x hx b hedge with hb | hb
    · exact .inl (List.mem_cons_of_mem _ hb)
    · rcases List.mem_cons.mp hb with rfl | hb
      · exact .inl List.mem_cons_self
      · exact .inr (List.mem_append_right _ hb)

/-- A search that ends without its goal leaves a set that is closed under the edges and does
not have the goal. -/
theorem search_closed {goal : α} {pending visited : List α}
    (h : search src dst edges goal pending visited = false)
    (hf : Frontier src dst edges pending visited) (hgoal : goal ∉ visited) :
    ∃ closed : List α, pending ⊆ closed ∧ visited ⊆ closed ∧ goal ∉ closed ∧
      Frontier src dst edges [] closed := by
  induction pending, visited using search.induct src dst edges goal with
  | case1 visited => exact ⟨visited, List.nil_subset _, List.Subset.refl _, hgoal, hf⟩
  | case2 visited rest => simp [search] at h
  | case3 visited current rest hne hseen ih =>
    rw [search, if_neg hne, if_pos hseen] at h
    obtain ⟨closed, hpending, hvisited, hout, hclosed⟩ := ih h (hf.skip hseen) hgoal
    exact ⟨closed, List.cons_subset.mpr ⟨hvisited hseen, hpending⟩, hvisited, hout, hclosed⟩
  | case4 visited current rest hne hnew ih =>
    rw [search, if_neg hne, if_neg hnew] at h
    have hgoal' : goal ∉ current :: visited :=
      List.not_mem_cons_of_ne_of_not_mem (Ne.symm hne) hgoal
    obtain ⟨closed, hpending, hvisited, hout, hclosed⟩ := ih h hf.visit hgoal'
    obtain ⟨hcurrent, hvisited⟩ := List.cons_subset.mp hvisited
    refine ⟨closed, List.cons_subset.mpr ⟨hcurrent, ?_⟩, hvisited, hout, hclosed⟩
    exact fun x hx => hpending (List.mem_append_right _ hx)

/-- The search meets its goal exactly where a path leads to it. -/
theorem search_iff {goal a : α} :
    search src dst edges goal [a] [] = true ↔ ReflTransGen (Edge src dst edges) a goal := by
  constructor
  · intro h
    obtain ⟨b, hb, hreach⟩ := search_sound h
    rwa [List.mem_singleton.mp hb] at hreach
  · intro hreach
    rw [← Bool.not_eq_false]
    intro hfalse
    have hf : Frontier src dst edges [a] [] := fun _ hx => absurd hx List.not_mem_nil
    obtain ⟨closed, hpending, -, hout, hclosed⟩ := search_closed hfalse hf List.not_mem_nil
    exact hout (hclosed.reach (hpending List.mem_cons_self) hreach)

end

section

variable {α : Type*}

/-- No node has a path of one or more steps back to itself. -/
def Acyclic (r : α → α → Prop) : Prop := ∀ x, ¬ TransGen r x x

/-- A path of the graph with one more edge is an old path or meets the new edge. -/
theorem transGen_insert {r s : α → α → Prop} {a b x y : α}
    (hs : ∀ u v, s u v → r u v ∨ u = a ∧ v = b) (h : TransGen s x y) :
    TransGen r x y ∨ ReflTransGen r x a ∧ ReflTransGen r b y := by
  induction h with
  | single hstep =>
    rcases hs _ _ hstep with hold | ⟨rfl, rfl⟩
    · exact .inl (.single hold)
    · exact .inr ⟨.refl, .refl⟩
  | tail _ hstep ih =>
    rcases hs _ _ hstep with hold | ⟨rfl, rfl⟩
    · rcases ih with hpath | ⟨hto, hfrom⟩
      · exact .inl (hpath.tail hold)
      · exact .inr ⟨hto, hfrom.tail hold⟩
    · rcases ih with hpath | ⟨hto, -⟩
      · exact .inr ⟨hpath.to_reflTransGen, .refl⟩
      · exact .inr ⟨hto, .refl⟩

/-- An edge whose end does not lead back to its start closes no cycle. -/
theorem Acyclic.insert {r s : α → α → Prop} {a b : α} (hr : Acyclic r)
    (hs : ∀ u v, s u v → r u v ∨ u = a ∧ v = b) (hno : ¬ ReflTransGen r b a) : Acyclic s := by
  intro x hcycle
  rcases transGen_insert hs hcycle with hold | ⟨hto, hfrom⟩
  · exact hr x hold
  · exact hno (hfrom.trans hto)

end

end Agend.Library
