import Mathlib.Order.Monotone.Basic
import Mathlib.Tactic.SplitIfs

/-! The proleptic Gregorian calendar, day by day. -/
namespace Agend.Library

structure Date where
  year : Nat
  month : Nat
  day : Nat
  deriving DecidableEq

def Leap (year : Nat) : Prop := year % 4 = 0 ∧ (year % 100 ≠ 0 ∨ year % 400 = 0)

instance (year : Nat) : Decidable (Leap year) := inferInstanceAs (Decidable (_ ∧ _))

def monthDays (year month : Nat) : Nat :=
  if month = 2 then if Leap year then 29 else 28
  else if month = 4 ∨ month = 6 ∨ month = 9 ∨ month = 11 then 30 else 31

namespace Date

/-- The day after. -/
def next (d : Date) : Date :=
  if d.day < monthDays d.year d.month then { d with day := d.day + 1 }
  else if d.month < 12 then ⟨d.year, d.month + 1, 1⟩
  else ⟨d.year + 1, 1, 1⟩

/-- The day that is so many days after 1970-01-01. -/
def ofDays : Nat → Date
  | 0 => ⟨1970, 1, 1⟩
  | n + 1 => (ofDays n).next

structure Valid (d : Date) : Prop where
  month_pos : 1 ≤ d.month
  month_le : d.month ≤ 12
  day_pos : 1 ≤ d.day
  day_le : d.day ≤ monthDays d.year d.month

instance : LT Date where
  lt a b := a.year < b.year ∨
    a.year = b.year ∧ (a.month < b.month ∨ a.month = b.month ∧ a.day < b.day)

theorem lt_def (a b : Date) : a < b ↔ a.year < b.year ∨
    a.year = b.year ∧ (a.month < b.month ∨ a.month = b.month ∧ a.day < b.day) := Iff.rfl

theorem lt_trans {a b c : Date} (hab : a < b) (hbc : b < c) : a < c := by
  rw [lt_def] at hab hbc ⊢
  omega

end Date

theorem monthDays_pos (year month : Nat) : 1 ≤ monthDays year month := by
  unfold monthDays
  split_ifs <;> omega

theorem monthDays_le (year month : Nat) : monthDays year month ≤ 31 := by
  unfold monthDays
  split_ifs <;> omega

namespace Date

theorem Valid.next {d : Date} (h : d.Valid) : d.next.Valid := by
  unfold Date.next
  split_ifs with hday hmonth
  · exact { h with day_pos := Nat.le_add_left 1 d.day, day_le := hday }
  · exact ⟨Nat.le_add_left 1 d.month, hmonth, le_rfl, monthDays_pos _ _⟩
  · exact ⟨le_rfl, (by decide : 1 ≤ 12), le_rfl, monthDays_pos _ _⟩

theorem valid_ofDays (n : Nat) : (ofDays n).Valid := by
  induction n with
  | zero => exact ⟨by decide, by decide, by decide, by decide⟩
  | succ n ih => exact ih.next

theorem lt_next (d : Date) : d < d.next := by
  rw [lt_def]
  unfold Date.next
  split_ifs
  · exact .inr ⟨rfl, .inr ⟨rfl, Nat.lt_succ_self _⟩⟩
  · exact .inr ⟨rfl, .inl (Nat.lt_succ_self _)⟩
  · exact .inl (Nat.lt_succ_self _)

/-- Later days have later dates. -/
theorem ofDays_lt {m n : Nat} (h : m < n) : ofDays m < ofDays n := by
  induction n with
  | zero => omega
  | succ n ih =>
    by_cases heq : m = n
    · rw [heq]
      exact lt_next _
    · exact lt_trans (ih (by omega)) (lt_next _)

end Date

end Agend.Library
