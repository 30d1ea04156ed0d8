import Mathlib.Algebra.Group.Nat.Defs
import Mathlib.Data.List.Basic
import Mathlib.Data.Nat.Init

/-! Numbers written in decimal and read back. -/
namespace Agend.Library

/-- Reads an unsigned number of 64 bits: a plus sign at most, then digits only. -/
def parseUsize (s : String) : Option Nat :=
  let digits := if s.toList.head? = some '+' then s.toList.tail else s.toList
  let n := Nat.ofDigitChars 10 digits 0
  if digits ≠ [] ∧ digits.all Char.isDigit = true ∧ n < 2 ^ 64 then some n else none

theorem isDigit_of_mem_repr {n : Nat} {c : Char} (h : c ∈ n.repr.toList) : c.isDigit = true := by
  rw [Nat.toList_repr] at h
  exact Nat.isDigit_of_mem_toDigits (by decide) (by decide) h

theorem not_mem_repr {n : Nat} {c : Char} (h : c.isDigit = false) : c ∉ n.repr.toList := by
  intro hmem
  rw [isDigit_of_mem_repr hmem] at h
  exact Bool.noConfusion h

theorem parseUsize_repr {n : Nat} (h : n < 2 ^ 64) : parseUsize n.repr = some n := by
  have hsign : n.repr.toList.head? ≠ some '+' := by
    intro hhead
    have hmem : '+' ∈ n.repr.toList := List.mem_of_mem_head? hhead
    exact not_mem_repr (by decide) hmem
  have hdigits : n.repr.toList.all Char.isDigit = true :=
    List.all_eq_true.mpr fun c hc => isDigit_of_mem_repr hc
  have hne : n.repr.toList ≠ [] := by
    rw [Nat.toList_repr]
    exact Nat.toDigits_ne_nil
  have hvalue : Nat.ofDigitChars 10 n.repr.toList 0 = n := by
    rw [Nat.toList_repr]
    exact Nat.ofDigitChars_ten_toDigits
  simp only [parseUsize, if_neg hsign, hvalue]
  rw [if_pos ⟨hne, hdigits, h⟩]

/-- At least so many digits, with zeros before. -/
def padded (width n : Nat) : List Char :=
  List.replicate (width - n.repr.toList.length) '0' ++ n.repr.toList

theorem isDigit_of_mem_padded {width n : Nat} {c : Char} (h : c ∈ padded width n) :
    c.isDigit = true := by
  rcases List.mem_append.mp h with hzero | hdigit
  · rw [(List.mem_replicate.mp hzero).2]
    rfl
  · exact isDigit_of_mem_repr hdigit

/-- One digit is written behind the others. -/
theorem padded_succ {width : Nat} (hwidth : 1 ≤ width) (n : Nat) :
    padded (width + 1) n = padded width (n / 10) ++ [(n % 10).digitChar] := by
  unfold padded
  rw [Nat.toList_repr, Nat.toList_repr]
  by_cases hn : n < 10
  · rw [Nat.toDigits_of_lt_base hn, Nat.div_eq_of_lt hn, Nat.mod_eq_of_lt hn, Nat.toDigits_zero,
      List.length_singleton, List.length_singleton, Nat.add_sub_cancel]
    obtain ⟨w, hw⟩ : ∃ w, width = w + 1 := ⟨width - 1, by omega⟩
    rw [hw, Nat.add_sub_cancel, List.replicate_succ']
  · rw [Nat.toDigits_of_base_le (by omega) (by omega), List.length_append, List.length_singleton,
      Nat.add_sub_add_right, List.append_assoc]

theorem padded_one {n : Nat} (h : n < 10) : padded 1 n = [n.digitChar] := by
  unfold padded
  rw [Nat.toList_repr, Nat.toDigits_of_lt_base h]
  rfl

theorem length_padded {width n : Nat} (hwidth : 1 ≤ width) (h : n < 10 ^ width) :
    (padded width n).length = width := by
  induction width, hwidth using Nat.le_induction generalizing n with
  | base =>
    rw [padded_one h]
    rfl
  | succ width hwidth ih =>
    have hlt : n / 10 < 10 ^ width := Nat.div_lt_of_lt_mul (Nat.pow_succ' ▸ h)
    rw [padded_succ hwidth, List.length_append, ih hlt, List.length_singleton]

theorem digitChar_lt {m n : Nat} (h : m < n) (hn : n < 10) : m.digitChar < n.digitChar := by
  have hall : ∀ n < 10, ∀ m < n, m.digitChar < n.digitChar := by decide
  exact hall n hn m h

/-- Texts of one length are compared before what is behind them. -/
theorem append_lt_append {α : Type*} [LT α] {a b : List α} (hlength : a.length = b.length)
    (h : a < b) (x y : List α) : a ++ x < b ++ y := by
  induction a generalizing b with
  | nil =>
    rw [List.eq_nil_of_length_eq_zero hlength.symm] at h
    cases h
  | cons c a ih =>
    cases b with
    | nil => cases h
    | cons d b =>
      cases h with
      | rel hlt => exact .rel hlt
      | cons hlt => exact .cons (ih (Nat.succ.inj hlength) hlt)

/-- Padded numbers are compared as their texts. -/
theorem padded_lt {width m n : Nat} (hwidth : 1 ≤ width) (h : m < n) (hn : n < 10 ^ width) :
    padded width m < padded width n := by
  induction width, hwidth using Nat.le_induction generalizing m n with
  | base =>
    have hten : n < 10 := hn
    rw [padded_one (by omega), padded_one hten]
    exact .rel (digitChar_lt h hten)
  | succ width hwidth ih =>
    have hlt : n / 10 < 10 ^ width := Nat.div_lt_of_lt_mul (Nat.pow_succ' ▸ hn)
    rw [padded_succ hwidth, padded_succ hwidth]
    by_cases hsame : m / 10 = n / 10
    · rw [hsame]
      exact List.append_left_lt (.rel (digitChar_lt (by omega) (Nat.mod_lt n (by omega))))
    · have hless : m / 10 < n / 10 := by omega
      apply append_lt_append _ (ih hless hlt)
      rw [length_padded hwidth (by omega), length_padded hwidth hlt]

end Agend.Library
