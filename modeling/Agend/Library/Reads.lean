import Mathlib.Algebra.Group.Int.Defs
import Agend.Library.Decimal
import Agend.Library.Json

/-! Derived readers of JSON, off a text and off a value that is buffered before its type is
known. -/
namespace Agend.Library

/-! Numbers. -/

def digitsOf (digits : List Char) : Option Nat :=
  if digits ≠ [] ∧ digits.all Char.isDigit = true then some (Nat.ofDigitChars 10 digits 0) else none

/-- An integer of 64 bits, with a sign or without one; any other number is a float, `-0` too. -/
def intOf (text : String) : Option Int :=
  match text.toList with
  | '-' :: digits => (digitsOf digits).bind fun n =>
    if n ≠ 0 ∧ n ≤ 2 ^ 63 then some (-(n : Int)) else none
  | digits => (digitsOf digits).bind fun n => if n < 2 ^ 64 then some (n : Int) else none

def intText : Int → String
  | .ofNat n => n.repr
  | .negSucc n => "-" ++ (n + 1).repr

theorem digitsOf_repr (n : Nat) : digitsOf n.repr.toList = some n := by
  have hdigits : n.repr.toList.all Char.isDigit = true :=
    List.all_eq_true.mpr fun c hc => isDigit_of_mem_repr hc
  have hne : n.repr.toList ≠ [] := by
    rw [Nat.toList_repr]
    exact Nat.toDigits_ne_nil
  have hvalue : Nat.ofDigitChars 10 n.repr.toList 0 = n := by
    rw [Nat.toList_repr]
    exact Nat.ofDigitChars_ten_toDigits
  rw [digitsOf, if_pos ⟨hne, hdigits⟩, hvalue]

theorem intOf_repr {n : Nat} (h : n < 2 ^ 64) : intOf n.repr = some (n : Int) := by
  have hnot : '-' ∉ n.repr.toList := not_mem_repr (by decide)
  unfold intOf
  split
  next digits heq =>
    rw [heq] at hnot
    exact absurd List.mem_cons_self hnot
  next => rw [digitsOf_repr, Option.bind_some, if_pos h]

theorem intOf_intText {i : Int} (hlow : -2 ^ 63 ≤ i) (hhigh : i < 2 ^ 64) :
    intOf (intText i) = some i := by
  cases i with
  | ofNat n =>
    have hlt : n < 2 ^ 64 := by
      have : (n : Int) < 2 ^ 64 := hhigh
      omega
    exact intOf_repr hlt
  | negSucc n =>
    have hle : n + 1 ≤ 2 ^ 63 := by omega
    have htext : (intText (.negSucc n)).toList = '-' :: (n + 1).repr.toList := by
      simp [intText]
    unfold intOf
    rw [htext]
    change (digitsOf (n + 1).repr.toList).bind _ = _
    rw [digitsOf_repr, Option.bind_some, if_pos ⟨Nat.succ_ne_zero n, hle⟩]
    rfl

/-- A number below a limit of at most 64 bits. -/
def Json.asNat (limit : Nat) : Json → Option Nat
  | .num text => (intOf text).bind fun i => if 0 ≤ i ∧ i < limit then some i.toNat else none
  | _ => none

def Json.asU64 : Json → Option Nat := Json.asNat (2 ^ 64)

def Json.asI64 : Json → Option Int
  | .num text => (intOf text).bind fun i => if i < 2 ^ 63 then some i else none
  | _ => none

/-! Values. -/

abbrev Members := List (String × Json)

namespace Json

variable (finite : String → Bool)

mutual

/-- A parser can hold every number in the value; whether it can hold a float is up to it. -/
def readable : Json → Bool
  | .num text => (intOf text).isSome || finite text
  | .arr items => readableItems items
  | .obj members => readableMembers members
  | .null | .bool _ | .str _ => true

def readableItems : List Json → Bool
  | [] => true
  | v :: items => v.readable && readableItems items

def readableMembers : Members → Bool
  | [] => true
  | (_, v) :: members => v.readable && readableMembers members

end

variable {finite}

theorem readableItems_cons (v : Json) (items : List Json) : readableItems finite (v :: items) =
    (v.readable finite && readableItems finite items) := rfl

theorem readableMembers_cons (m : String × Json) (members : Members) :
    readableMembers finite (m :: members) =
      (m.2.readable finite && readableMembers finite members) := rfl

theorem readable_arr {items : List Json} :
    (Json.arr items).readable finite = true ↔ ∀ v ∈ items, v.readable finite = true := by
  change readableItems finite items = true ↔ _
  induction items with
  | nil => exact iff_of_true rfl fun _ hmem => absurd hmem List.not_mem_nil
  | cons v items ih => rw [readableItems_cons, Bool.and_eq_true, ih, List.forall_mem_cons]

theorem readable_obj {members : Members} :
    (Json.obj members).readable finite = true ↔ ∀ m ∈ members, m.2.readable finite = true := by
  change readableMembers finite members = true ↔ _
  induction members with
  | nil => exact iff_of_true rfl fun _ hmem => absurd hmem List.not_mem_nil
  | cons m members ih => rw [readableMembers_cons, Bool.and_eq_true, ih, List.forall_mem_cons]

end Json

/-- What an object has under a key. -/
def values (key : String) (ms : Members) : List Json := (ms.filter (·.1 = key)).map (·.2)

section

variable {key : String} {ms ms' : Members} {v : Json}

@[simp] theorem values_nil : values key [] = [] := rfl

@[simp] theorem values_cons (m : String × Json) :
    values key (m :: ms) = if m.1 = key then m.2 :: values key ms else values key ms := by
  unfold values
  rw [List.filter_cons]
  by_cases h : m.1 = key
  · simp [h]
  · simp [h]

@[simp] theorem values_append : values key (ms ++ ms') = values key ms ++ values key ms' := by
  simp [values]

theorem values_eq_nil (h : ∀ m ∈ ms, m.1 ≠ key) : values key ms = [] := by
  unfold values
  rw [List.filter_eq_nil_iff.mpr fun m hm => by simpa using h m hm]
  rfl

theorem mem_of_values (h : values key ms = [v]) : (key, v) ∈ ms := by
  have hvalue : v ∈ values key ms := h ▸ List.mem_singleton_self v
  obtain ⟨m, hm, rfl⟩ := List.mem_map.mp hvalue
  obtain ⟨hmem, hkey⟩ := List.mem_filter.mp hm
  have heq : m.1 = key := of_decide_eq_true hkey
  rw [← heq]
  exact hmem

theorem readable_of_values {finite : String → Bool}
    (hreadable : (Json.obj ms).readable finite = true) (h : values key ms = [v]) :
    v.readable finite = true :=
  Json.readable_obj.mp hreadable _ (mem_of_values h)

theorem get?_obj : (Json.obj ms).get? key = (values key ms).head? := by
  change ms.lookup key = _
  induction ms with
  | nil => rfl
  | cons m ms ih =>
    rw [values_cons, List.lookup_cons]
    by_cases hkey : m.1 = key
    · rw [if_pos hkey, hkey, beq_self_eq_true]
      rfl
    · have hne : (key == m.1) = false := beq_false_of_ne fun heq => hkey heq.symm
      rw [if_neg hkey, hne]
      exact ih

/-- The members under other keys. -/
theorem values_filter {tag : String} (h : key ≠ tag) :
    values key (ms.filter (·.1 ≠ tag)) = values key ms := by
  unfold values
  rw [List.filter_filter]
  congr 1
  apply List.filter_congr
  intro m _
  by_cases hm : m.1 = key
  · simp [hm, h]
  · simp [hm]

theorem values_of_nodup (h : (ms.map Prod.fst).Nodup) (key : String) :
    values key ms = [] ∨ ∃ v, values key ms = [v] := by
  induction ms with
  | nil => exact .inl rfl
  | cons m ms ih =>
    obtain ⟨hnot, hrest⟩ := List.nodup_cons.mp h
    rw [values_cons]
    by_cases hkey : m.1 = key
    · right
      refine ⟨m.2, ?_⟩
      rw [if_pos hkey, values_eq_nil fun m' hm' heq => hnot ?_]
      rw [hkey, ← heq]
      exact List.mem_map_of_mem hm'
    · rw [if_neg hkey]
      exact ih hrest

theorem values_of_get? (h : (ms.map Prod.fst).Nodup) (hget : (Json.obj ms).get? key = some v) :
    values key ms = [v] := by
  rw [get?_obj] at hget
  cases values_of_nodup h key with
  | inl hnone =>
    rw [hnone] at hget
    cases hget
  | inr hone =>
    obtain ⟨w, hw⟩ := hone
    rw [hw] at hget
    cases hget
    exact hw

end

/-! Readers. -/

/-- Where a value is read from: a text with its parser, or a buffer that a parser filled. -/
inductive Source
  | text (finite : String → Bool)
  | buffered

abbrev Reads (α : Type) := Source → Json → Option α

def readOption {α : Type} (read : Reads α) : Reads (Option α)
  | _, .null => some none
  | s, v => (read s v).map some

def readVec {α : Type} (read : Reads α) : Reads (List α)
  | s, .arr items => items.mapM (read s)
  | _, _ => none

/-- A value that is kept as its text. -/
def readRaw : Reads Json
  | .text _, v => some v
  | .buffered, _ => none

/-- A field, with what it is when it is missing. -/
def readField {α : Type} (key : String) (read : Reads α) (missing : Option α) (s : Source)
    (ms : Members) : Option α :=
  match values key ms with
  | [] => missing
  | [v] => read s v
  | _ => none

/-- A struct that is written as an object; one that is written as an array is left out. -/
def readStruct {α : Type} (fields : Source → Members → Option α) : Reads α
  | s, .obj ms => fields s ms
  | _, _ => none

section

variable {α β : Type} {key : String} {read : Reads α} {read' : Reads β} {s : Source} {ms : Members}
  {v : Json}

theorem readField_eq (h : values key ms = [v]) {missing : Option α} :
    readField key read missing s ms = read s v := by
  rw [readField, h]

/-- What is made of a field is as if it were read. -/
theorem readField_bind {missing : Option α} {g : α → Option β}
    (h : ∀ v, values key ms = [v] → (read s v).bind g = read' s v) :
    (readField key read missing s ms).bind g = readField key read' (missing.bind g) s ms := by
  unfold readField
  split
  next heq => rfl
  next v heq => exact h v heq
  next => rfl

theorem mapM_congr {f g : α → Option β} {items : List α} (h : ∀ a ∈ items, f a = g a) :
    items.mapM f = items.mapM g := by
  induction items with
  | nil => rfl
  | cons a items ih =>
    rw [List.mapM_cons, List.mapM_cons, h a List.mem_cons_self,
      ih fun b hb => h b (List.mem_cons_of_mem a hb)]

theorem mapM_bind {γ : Type} (f : γ → Option α) (g : α → Option β) (items : List γ) :
    (items.mapM f).bind (List.mapM g) = items.mapM fun a => (f a).bind g := by
  induction items with
  | nil => rfl
  | cons a items ih =>
    simp only [List.mapM_cons, Option.bind_eq_bind, Option.pure_def]
    rw [← ih]
    cases f a with
    | none => rfl
    | some b =>
      cases items.mapM f with
      | none => cases g b <;> simp
      | some bs => simp [List.mapM_cons]

/-- What is made of each item is as if it were read. -/
theorem readVec_bind {g : α → Option β}
    (h : ∀ items, v = .arr items → ∀ w ∈ items, (read s w).bind g = read' s w) :
    (readVec read s v).bind (List.mapM g) = readVec read' s v := by
  cases v with
  | arr items => exact (mapM_bind (read s) g items).trans (mapM_congr (h items rfl))
  | _ => rfl

/-- The readers of the value under a key. -/
theorem readField_congr {read' : Reads α} {missing : Option α}
    (h : ∀ v, values key ms = [v] → read s v = read' s v) :
    readField key read missing s ms = readField key read' missing s ms := by
  unfold readField
  split
  next => rfl
  next v heq => exact h v heq
  next => rfl

end

end Agend.Library
