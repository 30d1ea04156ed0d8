import Agend.Library.Reads

/-! Types of JSON with a writer and the reader that reads it back. -/
namespace Agend.Library

/-- A type's writer and reader. What is plain is read alike from a text and from a buffer. -/
structure Serde (α : Type) where
  write : α → Json
  read : Reads α
  /-- What the type can hold. -/
  Valid : α → Prop
  Plain : Json → Prop
  agree : ∀ {finite v}, Plain v → v.readable finite = true →
    read (.text finite) v = read .buffered v
  plain : ∀ {a}, Valid a → Plain (write a)
  readable : ∀ {a} finite, Valid a → (write a).readable finite = true
  round : ∀ {a} s, Valid a → read s (write a) = some a

namespace Serde

variable {α β : Type}

/-- What is read alike from both, if nothing is in the way. -/
def scalar (write : α → Json) (read : Json → Option α) (Valid : α → Prop)
    (hreadable : ∀ a finite, Valid a → (write a).readable finite = true)
    (hround : ∀ a, Valid a → read (write a) = some a) : Serde α where
  write := write
  read _ v := read v
  Valid := Valid
  Plain _ := True
  agree _ _ := rfl
  plain _ := trivial
  readable finite h := hreadable _ finite h
  round _ h := hround _ h

def string : Serde String :=
  scalar .str Json.asStr (fun _ => True) (fun _ _ _ => rfl) fun _ _ => rfl

def bool : Serde Bool :=
  scalar .bool Json.asBool (fun _ => True) (fun _ _ _ => rfl) fun _ _ => rfl

section

variable {limit : Nat} (hlimit : limit ≤ 2 ^ 64)

include hlimit

theorem readable_repr (n : Nat) (finite : String → Bool) (h : n < limit) :
    (Json.num n.repr).readable finite = true := by
  rw [Json.readable, intOf_repr (Nat.lt_of_lt_of_le h hlimit)]
  rfl

theorem asNat_repr (n : Nat) (h : n < limit) : Json.asNat limit (.num n.repr) = some n := by
  have hbound : (n : Int) < limit := by exact_mod_cast h
  rw [Json.asNat, intOf_repr (Nat.lt_of_lt_of_le h hlimit), Option.bind_some,
    if_pos ⟨Int.natCast_nonneg n, hbound⟩]
  rfl

end

/-- Unsigned, below a limit of at most 64 bits. -/
def nat (limit : Nat) (hlimit : limit ≤ 2 ^ 64 := by decide) : Serde Nat :=
  scalar (fun n => .num n.repr) (Json.asNat limit) (· < limit) (readable_repr hlimit)
    (asNat_repr hlimit)

def u16 : Serde Nat := nat (2 ^ 16)

def u32 : Serde Nat := nat (2 ^ 32)

def u64 : Serde Nat := nat (2 ^ 64)

theorem readable_intText (i : Int) (finite : String → Bool) (h : -2 ^ 63 ≤ i ∧ i < 2 ^ 63) :
    (Json.num (intText i)).readable finite = true := by
  rw [Json.readable, intOf_intText h.1 (by omega)]
  rfl

theorem asI64_intText (i : Int) (h : -2 ^ 63 ≤ i ∧ i < 2 ^ 63) :
    Json.asI64 (.num (intText i)) = some i := by
  rw [Json.asI64, intOf_intText h.1 (by omega), Option.bind_some, if_pos h.2]

def i64 : Serde Int :=
  scalar (fun i => .num (intText i)) Json.asI64 (fun i => -2 ^ 63 ≤ i ∧ i < 2 ^ 63)
    readable_intText asI64_intText

theorem string_ne_null (a : String) : string.write a ≠ .null := nofun

theorem u32_ne_null (a : Nat) : u32.write a ≠ .null := nofun

theorem u64_ne_null (a : Nat) : u64.write a ≠ .null := nofun

/-- A value that may be missing is `null` then. -/
def option (d : Serde α) (hsome : ∀ a, d.write a ≠ .null := by
      first
      | with_reducible exact Agend.Library.Serde.string_ne_null
      | with_reducible exact Agend.Library.Serde.u32_ne_null
      | with_reducible exact Agend.Library.Serde.u64_ne_null
      | intro _ h; cases h) :
    Serde (Option α) where
  write
    | none => .null
    | some a => d.write a
  read := readOption d.read
  Valid a := ∀ b, a = some b → d.Valid b
  Plain v := v ≠ .null → d.Plain v
  agree {finite v} hplain hreadable := by
    by_cases hnull : v = .null
    · rw [hnull]
      rfl
    · have hsame := d.agree (hplain hnull) hreadable
      cases v with
      | null => exact absurd rfl hnull
      | bool b => exact congrArg (Option.map some) hsame
      | num text => exact congrArg (Option.map some) hsame
      | str s => exact congrArg (Option.map some) hsame
      | arr items => exact congrArg (Option.map some) hsame
      | obj ms => exact congrArg (Option.map some) hsame
  plain {a} h := by
    cases a with
    | none => exact fun hnull => absurd rfl hnull
    | some b => exact fun _ => d.plain (h b rfl)
  readable {a} finite h := by
    cases a with
    | none => rfl
    | some b => exact d.readable finite (h b rfl)
  round {a} s h := by
    cases a with
    | none => rfl
    | some b =>
      have hread := d.round s (h b rfl)
      dsimp only
      unfold readOption
      split
      next hnull => exact absurd hnull (hsome b)
      next => rw [hread]; rfl

theorem mapM_map_some {f : α → β} {g : β → Option α} {items : List α}
    (h : ∀ a ∈ items, g (f a) = some a) : (items.map f).mapM g = some items := by
  induction items with
  | nil => rfl
  | cons a items ih =>
    rw [List.map_cons, List.mapM_cons, h a List.mem_cons_self,
      ih fun b hb => h b (List.mem_cons_of_mem a hb)]
    rfl

def vec (d : Serde α) : Serde (List α) where
  write items := .arr (items.map d.write)
  read := readVec d.read
  Valid items := ∀ a ∈ items, d.Valid a
  Plain
    | .arr items => ∀ v ∈ items, d.Plain v
    | _ => True
  agree {finite v} hplain hreadable := by
    cases v with
    | arr items =>
      have hitems := Json.readable_arr.mp hreadable
      exact mapM_congr fun v hv => d.agree (hplain v hv) (hitems v hv)
    | null => rfl
    | bool b => rfl
    | num text => rfl
    | str s => rfl
    | obj ms => rfl
  plain h := by
    intro v hv
    obtain ⟨a, ha, rfl⟩ := List.mem_map.mp hv
    exact d.plain (h a ha)
  readable finite h := by
    apply Json.readable_arr.mpr
    intro v hv
    obtain ⟨a, ha, rfl⟩ := List.mem_map.mp hv
    exact d.readable finite (h a ha)
  round s h := mapM_map_some fun a ha => d.round s (h a ha)

/-- An enum without data is written as the name of a variant. In an object, a name may also have
nothing as its data; a buffer takes an empty object for nothing. -/
def readVariant (variants : List (String × α)) (other : Option α) : Reads α := fun s v =>
  match v with
  | .str name => (variants.lookup name).or other
  | .obj [(name, .null)] => (variants.lookup name).or other
  | .obj [(name, .obj [])] =>
    match s with
    | .text _ => none
    | .buffered => (variants.lookup name).or other
  | _ => none

def enum (variants : List (String × α)) (other : Option α) (name : α → String)
    (hname : ∀ a, (variants.lookup (name a)).or other = some a := by intro a; cases a <;> rfl) :
    Serde α where
  write a := .str (name a)
  read := readVariant variants other
  Valid _ := True
  Plain v := ∀ name, v ≠ .obj [(name, .obj [])]
  agree {finite v} hplain _ := by
    unfold readVariant
    split
    next => rfl
    next => rfl
    next name _ => exact absurd rfl (hplain name)
    next => rfl
  plain _ := nofun
  readable _ _ := rfl
  round _ _ := hname _

end Serde

end Agend.Library
