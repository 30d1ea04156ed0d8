import Mathlib.Data.List.Basic
import Mathlib.Order.Basic
import Mathlib.Tactic.TypeStar

/-! Histories that only grow: every entry names its parents among the entries before it. -/
namespace Agend.Library

structure Node (α : Type*) where
  parents : List Nat
  content : α
  deriving DecidableEq

/-- Entry `i` is the `i`th one that was added. -/
abbrev History (α : Type*) := List (Node α)

namespace History

variable {α : Type*} {H K : History α} {a b c i p fuel : Nat}

def parents (H : History α) (i : Nat) : List Nat := (H[i]?.map Node.parents).getD []

/-- `a` is `b` or one of its ancestors. -/
inductive Reaches (H : History α) (a : Nat) : Nat → Prop
  | refl : Reaches H a a
  | step {p b : Nat} (hp : p ∈ H.parents b) (h : Reaches H a p) : Reaches H a b

/-- Parents are older. -/
def Founded (H : History α) : Prop := ∀ i, ∀ p ∈ H.parents i, p < i

theorem parents_of_length_le (h : H.length ≤ i) : H.parents i = [] := by
  rw [parents, List.getElem?_eq_none h]
  rfl

theorem parents_append (h : i < H.length) : (H ++ K).parents i = H.parents i := by
  rw [parents, parents, List.getElem?_append_left h]

theorem parents_new (n : Node α) : (H ++ [n]).parents H.length = n.parents := by
  rw [parents, List.getElem?_concat_length]
  rfl

/-- A new entry names old ones. -/
theorem Founded.concat (hH : H.Founded) {n : Node α} (hn : ∀ p ∈ n.parents, p < H.length) :
    (H ++ [n]).Founded := by
  intro i p hp
  rcases Nat.lt_trichotomy i H.length with hi | rfl | hi
  · rw [parents_append hi] at hp
    exact hH i p hp
  · rw [parents_new] at hp
    exact hn p hp
  · rw [parents_of_length_le (by rw [List.length_append]; exact hi)] at hp
    cases hp

theorem Reaches.trans (hab : Reaches H a b) (hbc : Reaches H b c) : Reaches H a c := by
  induction hbc with
  | refl => exact hab
  | step hp _ ih => exact .step hp ih

theorem reaches_parent (hp : p ∈ H.parents b) : Reaches H p b := .step hp .refl

theorem Reaches.le (hH : H.Founded) (h : Reaches H a b) : a ≤ b := by
  induction h with
  | refl => exact Nat.le_refl _
  | step hp _ ih => exact Nat.le_trans ih (Nat.le_of_lt (hH _ _ hp))

/-- What is reached in another way than by being it is reached through a parent. -/
theorem Reaches.through (h : Reaches H a b) (hne : a ≠ b) :
    ∃ p ∈ H.parents b, Reaches H a p := by
  cases h with
  | refl => exact absurd rfl hne
  | step hp h => exact ⟨_, hp, h⟩

theorem Reaches.append (h : Reaches H a b) (K : History α) : Reaches (H ++ K) a b := by
  induction h with
  | refl => exact .refl
  | @step p b hp _ ih =>
    have hb : b < H.length := by
      by_contra hb
      rw [parents_of_length_le (Nat.le_of_not_lt hb)] at hp
      cases hp
    exact .step (by rw [parents_append hb]; exact hp) ih

/-- New entries are no ancestors of old ones. -/
theorem Reaches.of_append (hH : (H ++ K).Founded) (h : Reaches (H ++ K) a b)
    (hb : b < H.length) : Reaches H a b := by
  induction h with
  | refl => exact .refl
  | step hp _ ih =>
    exact .step (by rwa [parents_append hb] at hp) (ih (Nat.lt_trans (hH _ _ hp) hb))

def ancestor (H : History α) : Nat → Nat → Nat → Bool
  | 0, _, _ => false
  | fuel + 1, a, b => a = b || (H.parents b).any (ancestor H fuel a)

/-- Whether `a` is `b` or one of its ancestors. -/
def isAncestor (H : History α) (a b : Nat) : Bool := H.ancestor (b + 1) a b

theorem reaches_of_ancestor (h : H.ancestor fuel a b = true) : Reaches H a b := by
  induction fuel generalizing b with
  | zero => cases h
  | succ fuel ih =>
    rcases Bool.or_eq_true_iff.mp h with h | h
    · rw [of_decide_eq_true h]
      exact .refl
    · obtain ⟨p, hp, h⟩ := List.any_eq_true.mp h
      exact .step hp (ih h)

theorem ancestor_of_reaches (hH : H.Founded) (h : Reaches H a b) (hf : b < fuel) :
    H.ancestor fuel a b = true := by
  induction h generalizing fuel with
  | refl =>
    cases fuel with
    | zero => cases hf
    | succ fuel => exact Bool.or_eq_true_iff.mpr (Or.inl (decide_eq_true rfl))
  | @step p b hp _ ih =>
    cases fuel with
    | zero => cases hf
    | succ fuel =>
      have hlt := hH _ _ hp
      refine Bool.or_eq_true_iff.mpr (Or.inr (List.any_eq_true.mpr ⟨p, hp, ih ?_⟩))
      exact Nat.lt_of_lt_of_le hlt (Nat.le_of_lt_succ hf)

theorem isAncestor_iff (hH : H.Founded) : H.isAncestor a b = true ↔ Reaches H a b :=
  ⟨reaches_of_ancestor, fun h => ancestor_of_reaches hH h (Nat.lt_succ_self b)⟩

/-- The entry, its first parent, the first parent of that one, and so on. -/
def firstParents (H : History α) : Nat → Nat → List Nat
  | 0, _ => []
  | fuel + 1, i =>
    i :: match H.parents i with
      | [] => []
      | p :: _ => firstParents H fuel p

theorem reaches_of_mem_firstParents (h : a ∈ H.firstParents fuel b) : Reaches H a b := by
  induction fuel generalizing b with
  | zero => cases h
  | succ fuel ih =>
    rcases List.mem_cons.mp h with rfl | h
    · exact .refl
    · split at h
      · cases h
      · rename_i p rest hp
        exact .step (hp ▸ List.mem_cons_self) (ih h)

end History

end Agend.Library
