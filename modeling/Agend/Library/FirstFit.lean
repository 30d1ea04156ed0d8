import Mathlib.Data.List.ReduceOption

/-! A single pass that gives every item at most one of the things not given before. -/
namespace Agend.Library

section

variable {α β : Type*}

/-- `pick` sees what is taken; what it picks is taken from then on. -/
def firstFit (pick : List β → α → Option β) : List β → List α → List (Option β)
  | _, [] => []
  | taken, a :: l => pick taken a :: firstFit pick ((pick taken a).toList ++ taken) l

/-- What is taken before the item at `i`. -/
def takenAt (pick : List β → α → Option β) (taken : List β) (l : List α) (i : Nat) : List β :=
  ((firstFit pick taken l).take i).reduceOption.reverse ++ taken

variable {pick : List β → α → Option β} {taken : List β} {l : List α}

@[simp] theorem length_firstFit : (firstFit pick taken l).length = l.length := by
  induction l generalizing taken with
  | nil => rfl
  | cons a l ih => simp [firstFit, ih]

theorem firstFit_getElem? {i : Nat} {a : α} (h : l[i]? = some a) :
    (firstFit pick taken l)[i]? = some (pick (takenAt pick taken l i) a) := by
  induction l generalizing taken i with
  | nil => simp at h
  | cons b l ih =>
    cases i with
    | zero =>
      have hab : b = a := by simpa using h
      simp [firstFit, takenAt, hab, List.reduceOption]
    | succ i =>
      have hnext : (firstFit pick ((pick taken b).toList ++ taken) l)[i]? = _ :=
        ih (by simpa using h)
      simp only [firstFit, List.getElem?_cons_succ, hnext, takenAt, List.take_succ_cons]
      cases pick taken b <;> simp [List.reduceOption]

theorem mem_takenAt {i : Nat} {b : β} :
    b ∈ takenAt pick taken l i ↔ (∃ j < i, (firstFit pick taken l)[j]? = some (some b)) ∨ b ∈ taken := by
  have htake : some b ∈ (firstFit pick taken l).take i ↔
      ∃ j < i, (firstFit pick taken l)[j]? = some (some b) := by
    rw [List.mem_iff_getElem?]
    constructor
    · rintro ⟨j, hj⟩
      rw [List.getElem?_take] at hj
      by_cases hlt : j < i
      · exact ⟨j, hlt, by simpa [hlt] using hj⟩
      · simp [hlt] at hj
    · rintro ⟨j, hlt, hj⟩
      exact ⟨j, by simp [hlt, hj]⟩
  rw [takenAt, List.mem_append, List.mem_reverse, List.reduceOption, List.mem_filterMap]
  simp only [id_eq, exists_eq_right, htake]

/-- A `pick` that never takes what is taken gives nothing twice. -/
theorem firstFit_once (hpick : ∀ taken a b, pick taken a = some b → b ∉ taken) {i j : Nat} {b : β}
    (hi : (firstFit pick taken l)[i]? = some (some b))
    (hj : (firstFit pick taken l)[j]? = some (some b)) : i = j := by
  have key : ∀ i j : Nat, i < j → (firstFit pick taken l)[i]? = some (some b) →
      (firstFit pick taken l)[j]? ≠ some (some b) := by
    intro i j hlt hi hj
    obtain ⟨a, ha⟩ : ∃ a, l[j]? = some a := by
      have hlen : j < (firstFit pick taken l).length := (List.getElem?_eq_some_iff.mp hj).1
      rw [length_firstFit] at hlen
      exact ⟨_, List.getElem?_eq_getElem hlen⟩
    rw [firstFit_getElem? ha, Option.some_inj] at hj
    exact hpick _ _ _ hj (mem_takenAt.mpr (.inl ⟨i, hlt, hi⟩))
  rcases Nat.lt_trichotomy i j with hlt | heq | hlt
  · exact absurd hj (key i j hlt hi)
  · exact heq
  · exact absurd hi (key j i hlt hj)

end

end Agend.Library
