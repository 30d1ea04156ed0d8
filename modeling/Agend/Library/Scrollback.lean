import Mathlib.Data.List.Basic

/-! Rows that are numbered one after the other, of which only the newest are kept. -/
namespace Agend.Library.Scrollback

variable {ρ : Type*} {most next n : Nat} {kept rows : List ρ}

/-- The newest `most` of the rows. -/
def keep (most : Nat) (rows : List ρ) : List ρ := rows.drop (rows.length - most)

/-- The kept row with a number, when the row after the newest one will have the number `next`. -/
def numbered (next : Nat) (kept : List ρ) (n : Nat) : Option ρ :=
  if n < next ∧ next ≤ n + kept.length then kept[n + kept.length - next]? else none

theorem length_keep : (keep most rows).length = min rows.length most := by
  rw [keep, List.length_drop]
  omega

theorem keep_of_length_le (h : rows.length ≤ most) : keep most rows = rows := by
  rw [keep, Nat.sub_eq_zero_of_le h, List.drop_zero]

theorem keep_keep_append : keep most (keep most kept ++ rows) = keep most (kept ++ rows) := by
  have hle : kept.length - most ≤ kept.length := Nat.sub_le _ _
  have happ : keep most kept ++ rows = (kept ++ rows).drop (kept.length - most) :=
    (List.drop_append_of_le_length hle).symm
  rw [happ]
  unfold keep
  rw [List.drop_drop, List.length_drop, List.length_append]
  congr 1
  omega

theorem numbered_append (hn : n < next) :
    numbered (next + rows.length) (kept ++ rows) n = numbered next kept n := by
  unfold numbered
  rw [List.length_append]
  have hsame : n + (kept.length + rows.length) - (next + rows.length) = n + kept.length - next := by
    omega
  by_cases h : next ≤ n + kept.length
  · rw [if_pos ⟨by omega, by omega⟩, if_pos ⟨hn, h⟩, hsame,
      List.getElem?_append_left (by omega)]
  · rw [if_neg (by omega), if_neg (by omega)]

/-- The new rows take the numbers from `next` on. -/
theorem numbered_append_new {i : Nat} (hi : i < rows.length) :
    numbered (next + rows.length) (kept ++ rows) (next + i) = rows[i]? := by
  unfold numbered
  rw [List.length_append, if_pos ⟨by omega, by omega⟩, List.getElem?_append_right (by omega)]
  congr 1
  omega

/-- A row that is still kept has the number it had. -/
theorem numbered_keep (hkept : next ≤ n + (keep most rows).length) :
    numbered next (keep most rows) n = numbered next rows n := by
  rw [length_keep] at hkept
  unfold numbered
  by_cases hn : n < next
  · rw [if_pos ⟨hn, by rw [length_keep]; exact hkept⟩, if_pos ⟨hn, by omega⟩, length_keep, keep,
      List.getElem?_drop]
    congr 1
    omega
  · rw [if_neg (by omega), if_neg (by omega)]

attribute [irreducible] keep

end Agend.Library.Scrollback
