import Mathlib.Data.List.Sort
import Mathlib.Data.Prod.Lex

/-! Lists that are read in an order that their own order does not decide. -/
namespace Agend.Library

section

variable {α κ : Type*} [LinearOrder κ] (key : α → κ)

/-- Stable, as the sort by a key of the source's library is. -/
def sortByKey (l : List α) : List α := l.insertionSort fun a b => key a ≤ key b

theorem sortByKey_perm (l : List α) : (sortByKey key l).Perm l := List.perm_insertionSort _ l

@[simp] theorem mem_sortByKey {l : List α} {a : α} : a ∈ sortByKey key l ↔ a ∈ l :=
  (sortByKey_perm key l).mem_iff

theorem pairwise_sortByKey (l : List α) :
    (sortByKey key l).Pairwise fun a b => key a ≤ key b := by
  have : Std.Total fun a b : α => key a ≤ key b := ⟨fun a b => le_total (key a) (key b)⟩
  have : IsTrans α fun a b : α => key a ≤ key b := ⟨fun _ _ _ => le_trans⟩
  exact List.pairwise_insertionSort _ l

variable {key}

/-- The first of the sorted list is one of the list, and none has a smaller key. -/
theorem head_sortByKey {l : List α} {a : α} (h : (sortByKey key l).head? = some a) :
    a ∈ l ∧ ∀ b ∈ l, key a ≤ key b := by
  obtain ⟨rest, heq⟩ := List.head?_eq_some_iff.mp h
  have hsorted := pairwise_sortByKey key l
  rw [heq] at hsorted
  refine ⟨(mem_sortByKey key).mp (heq ▸ List.mem_cons_self), fun b hb => ?_⟩
  have hmem : b ∈ a :: rest := heq ▸ (mem_sortByKey key).mpr hb
  rcases List.mem_cons.mp hmem with rfl | hrest
  · exact le_rfl
  · exact (List.pairwise_cons.mp hsorted).1 b hrest

/-- What is looked for is found where its key is the smallest. -/
theorem find?_sortByKey {p : α → Bool} {l : List α} {a : α}
    (h : (sortByKey key l).find? p = some a) : ∀ b ∈ l, p b = true → key a ≤ key b := by
  intro b hb hp
  obtain ⟨-, before, after, heq, hbefore⟩ := List.find?_eq_some_iff_append.mp h
  have hsorted := pairwise_sortByKey key l
  rw [heq] at hsorted
  have hmem : b ∈ before ++ a :: after := heq ▸ (mem_sortByKey key).mpr hb
  rcases List.mem_append.mp hmem with hleft | hright
  · exact absurd (hbefore b hleft) (by simp [hp])
  · rcases List.mem_cons.mp hright with rfl | hright
    · exact le_rfl
    · exact (List.pairwise_cons.mp (List.pairwise_append.mp hsorted).2.1).1 b hright

/-- Where the keys tell the members apart, the order of the list is of no account. -/
theorem sortByKey_congr {l l' : List α} (hinj : ∀ a ∈ l, ∀ b ∈ l, key a = key b → a = b)
    (hperm : l.Perm l') : sortByKey key l = sortByKey key l' := by
  have hto : (sortByKey key l).Perm (sortByKey key l') :=
    (sortByKey_perm key l).trans (hperm.trans (sortByKey_perm key l').symm)
  refine hto.eq_of_pairwise ?_ (pairwise_sortByKey key l) (pairwise_sortByKey key l')
  intro a b ha hb hab hba
  have ha' := (mem_sortByKey key).mp ha
  have hb' := hperm.mem_iff.mpr ((mem_sortByKey key).mp hb)
  exact hinj a ha' b hb' (le_antisymm hab hba)

end

section

variable {α : Type*} {p : α → Bool} {l l' : List α}

/-- A member that is the only one of its kind is found in any order. -/
theorem find?_congr (hone : ∀ a ∈ l, ∀ b ∈ l, p a = true → p b = true → a = b)
    (hperm : l.Perm l') : l.find? p = l'.find? p := by
  cases h : l.find? p with
  | none =>
    have hnone := List.find?_eq_none.mp h
    exact (List.find?_eq_none.mpr fun a ha => hnone a (hperm.mem_iff.mpr ha)).symm
  | some a =>
    cases h' : l'.find? p with
    | none =>
      have ha := hperm.mem_iff.mp (List.mem_of_find?_eq_some h)
      exact absurd (List.find?_some h) (List.find?_eq_none.mp h' a ha)
    | some b =>
      have hb := hperm.mem_iff.mpr (List.mem_of_find?_eq_some h')
      have heq := hone a (List.mem_of_find?_eq_some h) b hb (List.find?_some h)
        (List.find?_some h')
      rw [heq]

end

end Agend.Library
