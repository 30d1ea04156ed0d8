import Mathlib.Data.List.Basic
import Mathlib.Data.Nat.Init

/-! The versions of a row, the oldest first, each of which follows the one before it; what once
holds of a version and is never taken back begins to hold at one version only. -/
namespace Agend.Library

variable {α : Type} {follows : Option α → α → Prop} {φ : α → Prop} {vs vs' : List α} {u v : α}
  {m n : Nat}

/-- The version before number `n`. -/
def before (vs : List α) (n : Nat) : Option α := if n = 0 then none else vs[n - 1]?

@[simp] theorem before_zero : before vs 0 = none := rfl

@[simp] theorem before_succ : before vs (n + 1) = vs[n]? := rfl

theorem before_append (h : n ≤ vs.length) : before (vs ++ vs') n = before vs n := by
  cases n with
  | zero => rfl
  | succ n => exact List.getElem?_append_left h

structure Succession (follows : Option α → α → Prop) (vs : List α) : Prop where
  step : ∀ n v, vs[n]? = some v → follows (before vs n) v

/-- What is not taken back. -/
def Lasting (follows : Option α → α → Prop) (φ : α → Prop) : Prop :=
  ∀ u v, follows (some u) v → φ u → φ v

/-- `φ` begins to hold with version `n`. -/
structure Begins (φ : α → Prop) (vs : List α) (n : Nat) : Prop where
  here : ∃ v, vs[n]? = some v ∧ φ v
  unheld : ∀ u, before vs n = some u → ¬ φ u

theorem exists_version (h : n < vs.length) : ∃ v, vs[n]? = some v :=
  ⟨vs.get ⟨n, h⟩, List.getElem?_eq_getElem h⟩

namespace Succession

theorem nil : Succession follows ([] : List α) :=
  ⟨fun n v h => by simp at h⟩

/-- A version is added at the end. -/
theorem concat (hs : Succession follows vs) (h : follows vs.getLast? v) :
    Succession follows (vs ++ [v]) := by
  refine ⟨fun n u hu => ?_⟩
  by_cases hn : n < vs.length
  · rw [List.getElem?_append_left hn] at hu
    rw [before_append (Nat.le_of_lt hn)]
    exact hs.step n u hu
  · have hlt : n < (vs ++ [v]).length := (List.getElem?_eq_some_iff.mp hu).1
    have heq : n = vs.length := by
      rw [List.length_append, List.length_singleton] at hlt
      omega
    subst heq
    rw [List.getElem?_concat_length] at hu
    rw [before_append (Nat.le_refl _), ← Option.some.inj hu]
    have hlast : before vs vs.length = vs.getLast? := by
      rw [List.getLast?_eq_getElem?]
      cases hvs : vs.length with
      | zero =>
        rw [List.eq_nil_of_length_eq_zero hvs]
        rfl
      | succ n => rfl
    rw [hlast]
    exact h

theorem lasts (hs : Succession follows vs) (hφ : Lasting follows φ) (hu : vs[m]? = some u)
    (hheld : φ u) (hle : m ≤ n) (hv : vs[n]? = some v) : φ v := by
  induction n, hle using Nat.le_induction generalizing v with
  | base =>
    obtain rfl : u = v := Option.some.inj (hu.symm.trans hv)
    exact hheld
  | succ n hle ih =>
    have hlt : n + 1 < vs.length := (List.getElem?_eq_some_iff.mp hv).1
    obtain ⟨w, hw⟩ : ∃ w, vs[n]? = some w := exists_version (by omega)
    have hfollows := hs.step (n + 1) v hv
    rw [before_succ, hw] at hfollows
    exact hφ w v hfollows (ih hw)

/-- Nothing begins twice. -/
theorem begins_once (hs : Succession follows vs) (hφ : Lasting follows φ)
    (hm : Begins φ vs m) (hn : Begins φ vs n) : m = n := by
  have hno : ∀ {m n}, Begins φ vs m → Begins φ vs n → ¬ m < n := by
    intro m n hm hn hlt
    obtain ⟨u, hu, hheld⟩ := hm.here
    obtain ⟨v, hv, -⟩ := hn.here
    obtain ⟨n, rfl⟩ : ∃ k, n = k + 1 := ⟨n - 1, by omega⟩
    have hlength : n + 1 < vs.length := (List.getElem?_eq_some_iff.mp hv).1
    obtain ⟨w, hw⟩ : ∃ w, vs[n]? = some w := exists_version (by omega)
    exact hn.unheld w hw (hs.lasts hφ hu hheld (by omega) hw)
  have h := hno hm hn
  have h' := hno hn hm
  omega

end Succession

end Agend.Library
