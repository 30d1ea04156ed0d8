import Mathlib.Data.List.Count
import Mathlib.Data.List.Perm.Basic
import Mathlib.Tactic.SplitIfs

/-! A limit on how often something is granted: so many times in a window that slides with a clock.
Only the grants that still count are kept. -/
namespace Agend.Library.Window

variable {most width now clock : Nat} {kept granted : List Nat}

/-- The grants that count at `now`. -/
def counting (width : Nat) (kept : List Nat) (now : Nat) : List Nat :=
  kept.filter (now - · < width)

/-- In the half-open window from `start`. -/
def within (width start t : Nat) : Bool := start ≤ t && t < start + width

/-- What was granted up to the clock, and what is kept of it. -/
structure Tracks (most width : Nat) (granted kept : List Nat) (clock : Nat) : Prop where
  past : ∀ t ∈ granted, t ≤ clock
  partition : ∃ dropped, granted.Perm (kept ++ dropped) ∧ ∀ t ∈ dropped, t + width ≤ clock
  few : kept.length ≤ most
  window : ∀ start, granted.countP (within width start) ≤ most

theorem tracks_nil : Tracks most width [] [] clock :=
  ⟨nofun, ⟨[], .refl _, nofun⟩, Nat.zero_le _, fun _ => Nat.zero_le _⟩

/-- The clock goes on. -/
theorem Tracks.later (h : Tracks most width granted kept clock) (hle : clock ≤ now) :
    Tracks most width granted kept now := by
  obtain ⟨dropped, hperm, hdropped⟩ := h.partition
  exact ⟨fun t ht => Nat.le_trans (h.past t ht) hle,
    ⟨dropped, hperm, fun t ht => Nat.le_trans (hdropped t ht) hle⟩, h.few, h.window⟩

/-- What counts no longer is dropped. -/
theorem Tracks.drop (h : Tracks most width granted kept now) :
    Tracks most width granted (counting width kept now) now := by
  obtain ⟨dropped, hperm, hdropped⟩ := h.partition
  refine ⟨h.past,
    ⟨kept.filter (fun t => !decide (now - t < width)) ++ dropped, ?_, fun t ht => ?_⟩,
    Nat.le_trans (List.length_filter_le _ _) h.few, h.window⟩
  · rw [← List.append_assoc]
    exact hperm.trans ((List.filter_append_perm _ kept).symm.append_right dropped)
  · rcases List.mem_append.mp ht with ht | ht
    · have hno : ¬ now - t < width := by simpa using (List.mem_filter.mp ht).2
      have hpast := h.past t (hperm.mem_iff.mpr (List.mem_append_left _ (List.mem_filter.mp ht).1))
      omega
    · exact hdropped t ht

/-- One more is granted while fewer than the most count. -/
theorem Tracks.grant (h : Tracks most width granted kept now) (hlt : kept.length < most) :
    Tracks most width (now :: granted) (kept ++ [now]) now := by
  obtain ⟨dropped, hperm, hdropped⟩ := h.partition
  refine ⟨fun t ht => ?_, ⟨dropped, ?_, hdropped⟩, ?_, fun start => ?_⟩
  · rcases List.mem_cons.mp ht with rfl | ht
    · exact Nat.le_refl _
    · exact h.past t ht
  · rw [List.append_assoc, List.singleton_append]
    exact (hperm.cons now).trans List.perm_middle.symm
  · rw [List.length_append, List.length_singleton]
    exact hlt
  · rw [List.countP_cons]
    split_ifs with hin
    · -- Whatever lies in a window that reaches the clock still counts.
      have hstart : start ≤ now ∧ now < start + width := by simpa [within] using hin
      have hgone : dropped.countP (within width start) = 0 := by
        rw [List.countP_eq_zero]
        intro t ht hw
        have hw : start ≤ t ∧ t < start + width := by simpa [within] using hw
        have := hdropped t ht
        omega
      rw [hperm.countP_eq, List.countP_append, hgone]
      exact Nat.le_trans (Nat.succ_le_succ List.countP_le_length) hlt
    · exact h.window start

end Agend.Library.Window
