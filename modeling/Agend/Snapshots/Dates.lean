import Mathlib.Tactic.IntervalCases
import Agend.Library.Calendar

/-! The UTC date of a unix time, as the file names of snapshots have it. -/
namespace Agend.Snapshots

open Library

def DAY_MS : Nat := 24 * 60 * 60 * 1000

/-- The date of a day count since 1970-01-01. Counts are signed in the source; from 1970 on
nothing below falls under zero. -/
def civilFromDays (days : Nat) : Date :=
  let z := days + 719468
  let era := z / 146097
  let doe := z % 146097
  let yoe := (doe - doe / 1460 + doe / 36524 - doe / 146096) / 365
  let doy := doe - (365 * yoe + yoe / 4 - yoe / 100)
  let mp := (5 * doy + 2) / 153
  let d := doy - (153 * mp + 2) / 5 + 1
  let m := if mp < 10 then mp + 3 else mp - 9
  let y := yoe + era * 400 + if m ≤ 2 then 1 else 0
  ⟨y, m, d⟩

/-! Years that start in March: the days before such a year and the length of it. -/

def yearStart (y : Nat) : Nat := 365 * y + y / 4 - y / 100 + y / 400

def yearDays (y : Nat) : Nat := if Leap (y + 1) then 366 else 365

def marchMonth (mp : Nat) : Nat := if mp < 10 then mp + 3 else mp - 9

/-- The calendar's year in the month, as the last two fall in the next one. -/
def monthYear (y mp : Nat) : Nat := y + if marchMonth mp ≤ 2 then 1 else 0

/-- A day of such a year as a date. -/
def marchDate (y doy : Nat) : Date :=
  let mp := (5 * doy + 2) / 153
  ⟨monthYear y mp, marchMonth mp, doy - (153 * mp + 2) / 5 + 1⟩

theorem yearStart_succ (y : Nat) : yearStart (y + 1) = yearStart y + yearDays y := by
  have hfour : (y + 1) / 4 = y / 4 + if (y + 1) % 4 = 0 then 1 else 0 := by split <;> omega
  have hcentury : (y + 1) / 100 = y / 100 + if (y + 1) % 100 = 0 then 1 else 0 := by
    split <;> omega
  have hera : (y + 1) / 400 = y / 400 + if (y + 1) % 400 = 0 then 1 else 0 := by split <;> omega
  have hfewer : y / 100 ≤ y / 4 := Nat.div_le_div_left (by omega) (by omega)
  unfold yearStart yearDays
  rw [hfour, hcentury, hera]
  by_cases h4 : (y + 1) % 4 = 0
  · by_cases h100 : (y + 1) % 100 = 0
    · by_cases h400 : (y + 1) % 400 = 0
      · rw [if_pos h4, if_pos h100, if_pos h400, if_pos ⟨h4, .inr h400⟩]
        omega
      · have hcommon : ¬ Leap (y + 1) := fun h => h.2.elim (· h100) h400
        rw [if_pos h4, if_pos h100, if_neg h400, if_neg hcommon]
        omega
    · have h400 : (y + 1) % 400 ≠ 0 := by omega
      rw [if_pos h4, if_neg h100, if_neg h400, if_pos ⟨h4, .inl h100⟩]
      omega
  · have h100 : (y + 1) % 100 ≠ 0 := by omega
    have h400 : (y + 1) % 400 ≠ 0 := by omega
    have hcommon : ¬ Leap (y + 1) := fun h => h4 h.1
    rw [if_neg h4, if_neg h100, if_neg h400, if_neg hcommon]
    omega

/-- The year of the era comes out right on each of its days. -/
theorem yoe_eq (c q r s doe : Nat) (hc : c ≤ 3) (hq : q ≤ 24) (hr : r ≤ 3) (hs : s ≤ 365)
    (hlong : s = 365 → r = 3 ∧ (q < 24 ∨ c = 3))
    (hdoe : doe = 36524 * c + 1461 * q + 365 * r + s) :
    (doe - doe / 1460 + doe / 36524 - doe / 146096) / 365 = 100 * c + 4 * q + r := by
  have hcentury : doe / 36524 = c + doe / 146096 := by
    by_cases hlast : doe = 146096
    · have hthree : c = 3 := by omega
      rw [hlast, hthree]
    · obtain ⟨rest, hrest⟩ : ∃ rest, rest = 1461 * q + 365 * r + s := ⟨_, rfl⟩
      have hlt : rest < 36524 := by omega
      have hsplit : doe = 36524 * c + rest := by omega
      have hfirst : doe < 146096 := by omega
      rw [Nat.div_eq_of_lt hfirst, hsplit, Nat.mul_add_div (by omega), Nat.div_eq_of_lt hlt]
  -- one day is dropped for each full four years
  obtain ⟨spare, hspare⟩ : ∃ spare, spare = 24 * c + q + 365 * r + s := ⟨_, rfl⟩
  have hfour : doe / 1460 = 25 * c + q + spare / 1460 := by
    have hsplit : doe = 1460 * (25 * c + q) + spare := by omega
    rw [hsplit, Nat.mul_add_div (by omega)]
  have hwithin : spare / 1460 ≤ s ∧ s - spare / 1460 < 365 := by
    by_cases hover : 1460 ≤ spare
    · have hone : spare / 1460 = 1 := Nat.div_eq_of_lt_le (by omega) (by omega)
      omega
    · have hzero : spare / 1460 = 0 := Nat.div_eq_of_lt (by omega)
      omega
  have hnum : doe - doe / 1460 + doe / 36524 - doe / 146096 =
      365 * (100 * c + 4 * q + r) + (s - spare / 1460) := by
    have hle := hwithin.1
    rw [hfour, hcentury]
    generalize spare / 1460 = extra at hle
    generalize doe / 146096 = last
    clear hwithin hfour hcentury hlong
    omega
  rw [hnum, Nat.mul_add_div (by omega), Nat.div_eq_of_lt hwithin.2, Nat.add_zero]

/-- The arithmetic finds the year that a day is in, and its place there. -/
theorem civilFromDays_eq (y doy days : Nat) (hdays : days + 719468 = yearStart y + doy)
    (hdoy : doy < yearDays y) : civilFromDays days = marchDate y doy := by
  obtain ⟨e, c, q, r, hc, hq, hr, hy⟩ : ∃ e c q r, c ≤ 3 ∧ q ≤ 24 ∧ r ≤ 3 ∧
      y = 400 * e + 100 * c + 4 * q + r :=
    ⟨y / 400, y % 400 / 100, y % 100 / 4, y % 4, by omega, by omega, by omega, by omega⟩
  have hstart : yearStart y = 146097 * e + (36524 * c + 1461 * q + 365 * r) := by
    unfold yearStart
    omega
  have hs : doy ≤ 365 := by
    unfold yearDays at hdoy
    split at hdoy <;> omega
  have hlong : doy = 365 → r = 3 ∧ (q < 24 ∨ c = 3) := by
    intro hlast
    have hleap : Leap (y + 1) := by
      by_contra hnot
      rw [yearDays, if_neg hnot] at hdoy
      omega
    have hfour : (y + 1) % 4 = (r + 1) % 4 := by
      have hsum : y + 1 = 4 * (100 * e + 25 * c + q) + (r + 1) := by omega
      rw [hsum, Nat.mul_add_mod]
    have hthree : r = 3 := by
      have hzero := hleap.1
      omega
    refine ⟨hthree, ?_⟩
    by_contra hnot
    have hq24 : q = 24 := by omega
    have hsum : y + 1 = 100 * (4 * e + c + 1) := by omega
    rcases hleap.2 with hcentury | hera
    · rw [hsum, Nat.mul_mod_right] at hcentury
      exact hcentury rfl
    · omega
  obtain ⟨doe, hdoe⟩ : ∃ doe, doe = 36524 * c + 1461 * q + 365 * r + doy := ⟨_, rfl⟩
  have hplace : doe - (365 * (100 * c + 4 * q + r) + (100 * c + 4 * q + r) / 4 -
      (100 * c + 4 * q + r) / 100) = doy := by
    have hfour : (100 * c + 4 * q + r) / 4 = 25 * c + q := by omega
    have hcentury : (100 * c + 4 * q + r) / 100 = c := by omega
    rw [hfour, hcentury]
    omega
  have hyear : 100 * c + 4 * q + r + e * 400 = y := by omega
  have hlt : doe < 146097 := by omega
  have hz : days + 719468 = 146097 * e + doe := by omega
  have hera : (days + 719468) / 146097 = e := by
    rw [hz, Nat.mul_add_div (by omega), Nat.div_eq_of_lt hlt, Nat.add_zero]
  have hdoe' : (days + 719468) % 146097 = doe := by
    rw [hz, Nat.mul_add_mod, Nat.mod_eq_of_lt hlt]
  have hyoe := yoe_eq c q r doy doe hc hq hr hs hlong hdoe
  simp only [civilFromDays, hera, hdoe', hyoe, hplace, hyear]
  rfl

/-- All months but February, which is the last of these years, have the length of their place. -/
theorem monthDays_eq {mp : Nat} (h : mp < 11) (y : Nat) :
    monthDays (monthYear y mp) (marchMonth mp) = (153 * (mp + 1) + 2) / 5 - (153 * mp + 2) / 5 := by
  interval_cases mp <;> rfl

theorem marchDate_succ {y doy : Nat} (h : doy + 1 < yearDays y) :
    marchDate y (doy + 1) = (marchDate y doy).next := by
  have hle : doy + 1 ≤ 365 := by
    unfold yearDays at h
    split at h <;> omega
  -- after the 28th of February comes another day of a long year only
  have hleap : doy = 364 → Leap (y + 1) := by
    intro hlast
    by_contra hnot
    rw [yearDays, if_neg hnot] at h
    omega
  obtain ⟨mp, hmp⟩ : ∃ mp, mp = (5 * doy + 2) / 153 := ⟨_, rfl⟩
  by_cases hsame : (5 * (doy + 1) + 2) / 153 = mp
  · have hday : doy - (153 * mp + 2) / 5 + 1 < monthDays (monthYear y mp) (marchMonth mp) := by
      by_cases hlt : mp < 11
      · rw [monthDays_eq hlt]
        omega
      · have hlast : mp = 11 := by omega
        rw [hlast]
        change doy - 337 + 1 < if Leap (y + 1) then 29 else 28
        split
        · omega
        · have hne : doy ≠ 364 := by
            intro heq
            exact absurd (hleap heq) ‹_›
          omega
    simp only [marchDate, Date.next, hsame, ← hmp, if_pos hday]
    congr 1
    omega
  · have hsucc : (5 * (doy + 1) + 2) / 153 = mp + 1 := by omega
    have hlt : mp < 11 := by omega
    have hday : ¬ doy - (153 * mp + 2) / 5 + 1 < monthDays (monthYear y mp) (marchMonth mp) := by
      rw [monthDays_eq hlt]
      omega
    have hfirst : doy + 1 - (153 * (mp + 1) + 2) / 5 + 1 = 1 := by omega
    simp only [marchDate, Date.next, hsucc, ← hmp, if_neg hday, hfirst]
    clear hmp hsame hsucc hday hfirst hleap hle h
    interval_cases mp <;> rfl

theorem marchDate_zero (y : Nat) : marchDate (y + 1) 0 = (marchDate y (yearDays y - 1)).next := by
  unfold yearDays
  by_cases hleap : Leap (y + 1)
  · rw [if_pos hleap]
    simp [marchDate, monthYear, marchMonth, Date.next, monthDays, hleap]
  · rw [if_neg hleap]
    simp [marchDate, monthYear, marchMonth, Date.next, monthDays, hleap]

/-- The date of the source is the one of the calendar. -/
theorem civilFromDays_ofDays (n : Nat) : civilFromDays n = Date.ofDays n := by
  have hday : ∃ y doy, n + 719468 = yearStart y + doy ∧ doy < yearDays y ∧
      marchDate y doy = Date.ofDays n := by
    induction n with
    | zero => exact ⟨1969, 306, by decide, by decide, by decide⟩
    | succ n ih =>
      obtain ⟨y, doy, hplace, hdoy, hdate⟩ := ih
      by_cases hnext : doy + 1 < yearDays y
      · refine ⟨y, doy + 1, by omega, hnext, ?_⟩
        rw [marchDate_succ hnext, hdate, Date.ofDays]
      · have hlast : doy = yearDays y - 1 := by omega
        have hpos : 0 < yearDays (y + 1) := by
          unfold yearDays
          split <;> omega
        refine ⟨y + 1, 0, ?_, hpos, ?_⟩
        · rw [yearStart_succ]
          omega
        · rw [marchDate_zero, ← hlast, hdate, Date.ofDays]
  obtain ⟨y, doy, hplace, hdoy, hdate⟩ := hday
  rw [civilFromDays_eq y doy n hplace hdoy, hdate]

end Agend.Snapshots
