import Mathlib.Data.List.Nodup
import Mathlib.Data.List.Sort

/-! Rows with distinct keys, as a primary key or an ordered map keeps them. -/
namespace Agend.Library

variable {κ α : Type*} [DecidableEq κ] {key : α → κ} {a b : α} {k : κ} {l : List α}

/-- Replaces the first row under the key of `a`, or appends `a`. -/
def upsert (key : α → κ) (a : α) : List α → List α
  | [] => [a]
  | b :: rest => if key b = key a then a :: rest else b :: upsert key a rest

/-- Either the keys stay, or the key of `a` joins them at the end. -/
theorem map_upsert : (upsert key a l).map key =
    if key a ∈ l.map key then l.map key else l.map key ++ [key a] := by
  induction l with
  | nil => simp [upsert]
  | cons b rest ih =>
    rw [upsert]
    by_cases h : key b = key a
    · simp [h]
    · simp only [if_neg h, List.map_cons, ih, List.mem_cons, Ne.symm h, false_or]
      split_ifs <;> rfl

theorem nodup_upsert (h : (l.map key).Nodup) : ((upsert key a l).map key).Nodup := by
  rw [map_upsert]
  split_ifs with hm
  · exact h
  · exact List.nodup_append.mpr ⟨h, List.nodup_singleton _, by
      rintro x hx y hy rfl
      exact hm (List.mem_singleton.mp hy ▸ hx)⟩

theorem mem_upsert_iff (h : (l.map key).Nodup) :
    b ∈ upsert key a l ↔ b = a ∨ b ∈ l ∧ key b ≠ key a := by
  induction l with
  | nil => simp [upsert]
  | cons c rest ih =>
    obtain ⟨hc, hrest⟩ := List.nodup_cons.mp h
    rw [upsert]
    split_ifs with hk
    · have hne : ∀ b ∈ rest, key b ≠ key a := fun b hb he =>
        hc (hk.trans he.symm ▸ List.mem_map_of_mem hb)
      constructor
      · intro hb
        rcases List.mem_cons.mp hb with rfl | hb
        · exact Or.inl rfl
        · exact Or.inr ⟨List.mem_cons_of_mem _ hb, hne b hb⟩
      · rintro (rfl | ⟨hb, hbk⟩)
        · exact List.mem_cons_self
        · rcases List.mem_cons.mp hb with rfl | hb
          · exact absurd hk hbk
          · exact List.mem_cons_of_mem _ hb
    · rw [List.mem_cons, ih hrest, List.mem_cons]
      constructor
      · rintro (rfl | rfl | ⟨hb, hbk⟩)
        · exact Or.inr ⟨Or.inl rfl, hk⟩
        · exact Or.inl rfl
        · exact Or.inr ⟨Or.inr hb, hbk⟩
      · rintro (rfl | ⟨rfl | hb, hbk⟩)
        · exact Or.inr (Or.inl rfl)
        · exact Or.inl rfl
        · exact Or.inr (Or.inr ⟨hb, hbk⟩)

/-- Rows under distinct keys. -/
structure Table (key : α → κ) where
  rows : List α
  nodup : (rows.map key).Nodup

namespace Table

variable {t : Table key}

def empty : Table key :=
  ⟨[], List.nodup_nil⟩

/-- The row under a key. -/
def get (t : Table key) (k : κ) : Option α :=
  t.rows.find? (key · = k)

def put (t : Table key) (a : α) : Table key :=
  ⟨upsert key a t.rows, nodup_upsert t.nodup⟩

def erase (t : Table key) (k : κ) : Table key :=
  ⟨t.rows.filter (key · ≠ k), (List.filter_sublist.map key).nodup t.nodup⟩

omit [DecidableEq κ] in
@[simp] theorem rows_empty : (empty : Table key).rows = [] := rfl

@[simp] theorem mem_put : b ∈ (t.put a).rows ↔ b = a ∨ b ∈ t.rows ∧ key b ≠ key a :=
  mem_upsert_iff t.nodup

@[simp] theorem mem_erase : b ∈ (t.erase k).rows ↔ b ∈ t.rows ∧ key b ≠ k := by
  simp [erase]

omit [DecidableEq κ] in
theorem eq_of_key_eq (ha : a ∈ t.rows) (hb : b ∈ t.rows) (h : key a = key b) : a = b :=
  List.inj_on_of_nodup_map t.nodup ha hb h

@[simp] theorem get_eq_some : t.get k = some a ↔ a ∈ t.rows ∧ key a = k := by
  unfold get
  constructor
  · intro h
    have hp := List.find?_some h
    exact ⟨List.mem_of_find?_eq_some h, of_decide_eq_true hp⟩
  · rintro ⟨ha, rfl⟩
    have hsome : (t.rows.find? (key · = key a)).isSome := by
      rw [List.find?_isSome]
      exact ⟨a, ha, by simp⟩
    obtain ⟨b, hb⟩ := Option.isSome_iff_exists.mp hsome
    have hp := List.find?_some hb
    rw [hb, eq_of_key_eq (List.mem_of_find?_eq_some hb) ha (of_decide_eq_true hp)]

@[simp] theorem get_eq_none : t.get k = none ↔ ∀ a ∈ t.rows, key a ≠ k := by
  simp [get]

theorem get_of_mem (h : a ∈ t.rows) : t.get (key a) = some a :=
  get_eq_some.mpr ⟨h, rfl⟩

@[simp] theorem get_put : (t.put a).get k = if k = key a then some a else t.get k := by
  split_ifs with h
  · rw [get_eq_some, mem_put]
    exact ⟨Or.inl rfl, h.symm⟩
  · apply Option.ext
    intro b
    rw [get_eq_some, get_eq_some, mem_put]
    constructor
    · rintro ⟨rfl | ⟨hb, -⟩, rfl⟩
      · exact absurd rfl h
      · exact ⟨hb, rfl⟩
    · rintro ⟨hb, rfl⟩
      exact ⟨Or.inr ⟨hb, h⟩, rfl⟩

theorem get_put_self : (t.put a).get (key a) = some a := by
  rw [get_put, if_pos rfl]

theorem get_put_of_ne (h : k ≠ key a) : (t.put a).get k = t.get k := by
  rw [get_put, if_neg h]

@[simp] theorem get_erase {j : κ} : (t.erase k).get j = if j = k then none else t.get j := by
  split_ifs with h
  · rw [get_eq_none]
    rintro b hb rfl
    exact (mem_erase.mp hb).2 h
  · apply Option.ext
    intro b
    rw [get_eq_some, get_eq_some, mem_erase]
    constructor
    · rintro ⟨⟨hb, -⟩, rfl⟩
      exact ⟨hb, rfl⟩
    · rintro ⟨hb, rfl⟩
      exact ⟨⟨hb, h⟩, rfl⟩

/-- Changes every row in place. -/
def update (t : Table key) (f : α → α) (hf : ∀ a, key (f a) = key a) : Table key :=
  ⟨t.rows.map f, by
    have hkeys : (t.rows.map f).map key = t.rows.map key := by
      rw [List.map_map]
      exact List.map_congr_left fun a _ => hf a
    rw [hkeys]
    exact t.nodup⟩

@[simp] theorem get_update {f : α → α} {hf : ∀ a, key (f a) = key a} :
    (t.update f hf).get k = (t.get k).map f := by
  apply Option.ext
  intro b
  rw [get_eq_some, Option.map_eq_some_iff]
  constructor
  · rintro ⟨hb, rfl⟩
    obtain ⟨a, ha, rfl⟩ := List.mem_map.mp hb
    exact ⟨a, get_eq_some.mpr ⟨ha, (hf a).symm⟩, rfl⟩
  · rintro ⟨a, ha, rfl⟩
    obtain ⟨hmem, rfl⟩ := get_eq_some.mp ha
    exact ⟨List.mem_map_of_mem hmem, hf a⟩

/-- The rows that satisfy `p`. -/
def filter (t : Table key) (p : α → Bool) : Table key :=
  ⟨t.rows.filter p, (List.filter_sublist.map key).nodup t.nodup⟩

@[simp] theorem get_filter {p : α → Bool} : (t.filter p).get k = (t.get k).filter p := by
  apply Option.ext
  intro b
  rw [get_eq_some, Option.filter_eq_some_iff, get_eq_some]
  constructor
  · rintro ⟨hb, hk⟩
    obtain ⟨hb, hp⟩ := List.mem_filter.mp hb
    exact ⟨⟨hb, hk⟩, hp⟩
  · rintro ⟨⟨hb, hk⟩, hp⟩
    exact ⟨List.mem_filter.mpr ⟨hb, hp⟩, hk⟩

@[simp] theorem get_empty : (empty : Table key).get k = none := rfl

/-- The rows in key order, as an ordered map iterates. -/
def values [LE κ] [DecidableLE κ] (t : Table key) : List α :=
  t.rows.insertionSort (key · ≤ key ·)

omit [DecidableEq κ] in
@[simp] theorem mem_values [LE κ] [DecidableLE κ] : a ∈ t.values ↔ a ∈ t.rows :=
  List.mem_insertionSort _

omit [DecidableEq κ] in
theorem nodup_values [LE κ] [DecidableLE κ] : (t.values.map key).Nodup :=
  ((List.perm_insertionSort (key · ≤ key ·) t.rows).map key).nodup_iff.mpr t.nodup

omit [DecidableEq κ] in
/-- What only rows under one key satisfy finds the row under that key. -/
theorem find?_values [LE κ] [DecidableLE κ] {p : α → Bool} (ha : a ∈ t.rows) (hp : p a = true)
    (hone : ∀ b ∈ t.rows, p b = true → key b = key a) : t.values.find? p = some a := by
  cases hfound : t.values.find? p with
  | none => exact absurd hp (List.find?_eq_none.mp hfound a (mem_values.mpr ha))
  | some b =>
    have hb := mem_values.mp (List.mem_of_find?_eq_some hfound)
    exact congrArg some (eq_of_key_eq hb ha (hone b hb (List.find?_some hfound)))

end Table

end Agend.Library
