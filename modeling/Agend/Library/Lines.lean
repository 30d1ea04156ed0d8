import Mathlib.Data.List.Basic

/-! A stream that one end writes as lines and the other end reads in pieces of any size. -/
namespace Agend.Library

section

variable {α : Type*} [DecidableEq α] (newline : α)

/-- The lines that a stream completes and what is left of it, after what is already there of a
line. -/
def cutLines : List α → List α → List (List α) × List α
  | there, [] => ([], there)
  | there, b :: bs =>
    if b = newline then (there :: (cutLines [] bs).1, (cutLines [] bs).2)
    else cutLines (there ++ [b]) bs

variable {newline} {there bs bs' : List α}

@[simp] theorem cutLines_nil : cutLines newline there [] = ([], there) := rfl

theorem cutLines_cons (b : α) : cutLines newline there (b :: bs) =
    if b = newline then (there :: (cutLines newline [] bs).1, (cutLines newline [] bs).2)
    else cutLines newline (there ++ [b]) bs := rfl

theorem cutLines_append : cutLines newline there (bs ++ bs') =
    ((cutLines newline there bs).1 ++ (cutLines newline (cutLines newline there bs).2 bs').1,
      (cutLines newline (cutLines newline there bs).2 bs').2) := by
  induction bs generalizing there with
  | nil => rfl
  | cons b bs ih =>
    rw [List.cons_append, cutLines_cons, cutLines_cons]
    split
    · rw [ih]
      rfl
    · exact ih

/-- A piece without a newline completes nothing. -/
theorem cutLines_of_not_mem (h : newline ∉ bs) :
    cutLines newline there bs = ([], there ++ bs) := by
  induction bs generalizing there with
  | nil => rw [cutLines_nil, List.append_nil]
  | cons b bs ih =>
    have hb : b ≠ newline := fun heq => h (heq ▸ List.mem_cons_self)
    have hrest : newline ∉ bs := fun hmem => h (List.mem_cons_of_mem _ hmem)
    rw [cutLines_cons, if_neg hb, ih hrest, List.append_assoc, List.singleton_append]

theorem cutLines_line (h : newline ∉ bs) :
    cutLines newline there (bs ++ newline :: bs') =
      ((there ++ bs) :: (cutLines newline [] bs').1, (cutLines newline [] bs').2) := by
  rw [cutLines_append, cutLines_of_not_mem h, cutLines_cons, if_pos rfl]
  rfl

/-- A whole line at the end of the stream completes what was left of it. -/
theorem cutLines_append_line (h : newline ∉ bs') :
    cutLines newline there (bs ++ (bs' ++ [newline])) =
      ((cutLines newline there bs).1 ++ [(cutLines newline there bs).2 ++ bs'], []) := by
  rw [cutLines_append, cutLines_line h, cutLines_nil]

theorem cutLines_append_of_not_mem (h : newline ∉ bs') :
    cutLines newline there (bs ++ bs') =
      ((cutLines newline there bs).1, (cutLines newline there bs).2 ++ bs') := by
  rw [cutLines_append, cutLines_of_not_mem h, List.append_nil]

/-- A search for the newline cuts the stream in two. -/
theorem split_of_findIdx? {i : Nat} (h : bs.findIdx? (· = newline) = some i) :
    newline ∉ bs.take i ∧ bs = bs.take i ++ newline :: bs.drop (i + 1) := by
  obtain ⟨hlt, hat, hbefore⟩ := List.findIdx?_eq_some_iff_getElem.mp h
  refine ⟨fun hmem => ?_, ?_⟩
  · obtain ⟨j, hj, heq⟩ := List.mem_take_iff_getElem.mp hmem
    exact hbefore j (by omega) (decide_eq_true heq)
  · have hget : bs[i] = newline := of_decide_eq_true hat
    rw [← hget, ← List.drop_eq_getElem_cons hlt, List.take_append_drop]

theorem not_mem_of_findIdx? (h : bs.findIdx? (· = newline) = none) : newline ∉ bs := by
  intro hmem
  have hnone := List.findIdx?_eq_none_iff.mp h newline hmem
  simp at hnone

end

/-- The lines of a text; a carriage return before a newline goes with it. -/
def lines (input : String) : List String :=
  let (whole, rest) := cutLines '\n' [] input.toList
  let unreturned (line : List Char) : List Char :=
    if line.getLast? = some '\r' then line.dropLast else line
  (whole.map unreturned ++ if rest = [] then [] else [rest]).map String.ofList

end Agend.Library
