import Mathlib.Algebra.GroupWithZero.Nat
import Mathlib.Algebra.BigOperators.Group.List.Basic

/-! Texts that are cut at byte offsets of their UTF-8 encoding. -/
namespace Agend.Library

/-- Bytes of a text. -/
def utf8Len (text : List Char) : Nat := (text.map Char.utf8Size).sum

/-- Every character with the offset of its first byte. -/
def charIndices : Nat → List Char → List (Nat × Char)
  | _, [] => []
  | offset, c :: text => (offset, c) :: charIndices (offset + c.utf8Size) text

/-- The text from a byte offset on; none within a character and past the end. -/
def sliceFrom : List Char → Nat → Option (List Char)
  | text, 0 => some text
  | [], _ + 1 => none
  | c :: text, n + 1 => if c.utf8Size ≤ n + 1 then sliceFrom text (n + 1 - c.utf8Size) else none

/-- The text up to a byte offset. -/
def sliceTo : List Char → Nat → Option (List Char)
  | _, 0 => some []
  | [], _ + 1 => none
  | c :: text, n + 1 =>
    if c.utf8Size ≤ n + 1 then (sliceTo text (n + 1 - c.utf8Size)).map (c :: ·) else none

/-- The text between two byte offsets. -/
def slice (text : List Char) (start stop : Nat) : Option (List Char) :=
  if start ≤ stop then (sliceFrom text start).bind (sliceTo · (stop - start)) else none

@[simp] theorem utf8Len_nil : utf8Len [] = 0 := rfl

@[simp] theorem utf8Len_cons (c : Char) (text : List Char) :
    utf8Len (c :: text) = c.utf8Size + utf8Len text := by
  simp [utf8Len]

@[simp] theorem utf8Len_append (a b : List Char) : utf8Len (a ++ b) = utf8Len a + utf8Len b := by
  simp [utf8Len]

@[simp] theorem sliceFrom_zero (text : List Char) : sliceFrom text 0 = some text := by
  cases text <;> rfl

theorem sliceFrom_succ (c : Char) (text : List Char) (n : Nat) : sliceFrom (c :: text) (n + 1) =
    if c.utf8Size ≤ n + 1 then sliceFrom text (n + 1 - c.utf8Size) else none := rfl

@[simp] theorem sliceTo_zero (text : List Char) : sliceTo text 0 = some [] := by
  cases text <;> rfl

theorem sliceTo_succ (c : Char) (text : List Char) (n : Nat) : sliceTo (c :: text) (n + 1) =
    if c.utf8Size ≤ n + 1 then (sliceTo text (n + 1 - c.utf8Size)).map (c :: ·) else none := rfl

theorem sliceFrom_cons (c : Char) (text : List Char) (n : Nat) :
    sliceFrom (c :: text) (c.utf8Size + n) = sliceFrom text n := by
  have hpos := c.utf8Size_pos
  obtain ⟨m, hm⟩ : ∃ m, c.utf8Size + n = m + 1 := ⟨c.utf8Size + n - 1, by omega⟩
  rw [hm, sliceFrom_succ, if_pos (by omega), ← hm, Nat.add_sub_cancel_left]

theorem sliceTo_cons (c : Char) (text : List Char) (n : Nat) :
    sliceTo (c :: text) (c.utf8Size + n) = (sliceTo text n).map (c :: ·) := by
  have hpos := c.utf8Size_pos
  obtain ⟨m, hm⟩ : ∃ m, c.utf8Size + n = m + 1 := ⟨c.utf8Size + n - 1, by omega⟩
  rw [hm, sliceTo_succ, if_pos (by omega), ← hm, Nat.add_sub_cancel_left]

theorem sliceFrom_append (a b : List Char) : sliceFrom (a ++ b) (utf8Len a) = some b := by
  induction a with
  | nil => exact sliceFrom_zero b
  | cons c a ih => rw [List.cons_append, utf8Len_cons, sliceFrom_cons, ih]

theorem sliceTo_append (a b : List Char) : sliceTo (a ++ b) (utf8Len a) = some a := by
  induction a with
  | nil => exact sliceTo_zero b
  | cons c a ih => rw [List.cons_append, utf8Len_cons, sliceTo_cons, ih, Option.map_some]

theorem slice_append (a b d : List Char) :
    slice (a ++ (b ++ d)) (utf8Len a) (utf8Len a + utf8Len b) = some b := by
  rw [slice, if_pos (Nat.le_add_right _ _), sliceFrom_append, Option.bind_some,
    Nat.add_sub_cancel_left, sliceTo_append]

/-- The UTF-8 encoding of a text. -/
def utf8Bytes (text : List Char) : List UInt8 := text.flatMap String.utf8EncodeChar

@[simp] theorem utf8Bytes_nil : utf8Bytes [] = [] := rfl

@[simp] theorem utf8Bytes_cons (c : Char) (text : List Char) :
    utf8Bytes (c :: text) = String.utf8EncodeChar c ++ utf8Bytes text := rfl

@[simp] theorem utf8Bytes_append (a b : List Char) :
    utf8Bytes (a ++ b) = utf8Bytes a ++ utf8Bytes b := by
  simp [utf8Bytes]

@[simp] theorem length_utf8Bytes (text : List Char) : (utf8Bytes text).length = utf8Len text := by
  induction text with
  | nil => rfl
  | cons c text ih => rw [utf8Bytes_cons, List.length_append, String.length_utf8EncodeChar, ih,
      utf8Len_cons]

/-- An ASCII character is one byte, with the same code. -/
theorem utf8EncodeChar_ascii {c : Char} (h : c.toNat < 128) :
    ∃ b : UInt8, String.utf8EncodeChar c = [b] ∧ b.toNat = c.toNat := by
  have hval : c.val ≤ 127 := UInt32.le_iff_toNat_le.mpr (Nat.le_of_lt_succ h)
  refine ⟨c.val.toUInt8, String.utf8EncodeChar_eq_singleton (Char.utf8Size_eq_one_iff.mpr hval), ?_⟩
  rw [UInt32.toNat_toUInt8]
  exact Nat.mod_eq_of_lt (by change c.toNat < 256; omega)

/-- Every byte of another character is above them. -/
theorem utf8EncodeChar_high {c : Char} (h : 128 ≤ c.toNat) :
    ∀ b ∈ String.utf8EncodeChar c, 128 ≤ b.toNat := by
  have hor : ∀ x y : UInt8, 128 ≤ y.toNat → 128 ≤ (x ||| y).toNat := by
    intro x y hy
    rw [UInt8.toNat_or]
    exact Nat.le_trans hy Nat.right_le_or
  have hsize : c.utf8Size ≠ 1 := by
    intro hone
    have hval : c.toNat ≤ 127 := UInt32.le_iff_toNat_le.mp (Char.utf8Size_eq_one_iff.mp hone)
    omega
  intro b hb
  rcases c.utf8Size_eq with hone | htwo | hthree | hfour
  · exact absurd hone hsize
  · rw [String.utf8EncodeChar_eq_cons_cons htwo] at hb
    simp only [List.mem_cons, List.not_mem_nil, or_false] at hb
    rcases hb with hb | hb <;> rw [hb] <;> exact hor _ _ (by decide)
  · rw [String.utf8EncodeChar_eq_cons_cons_cons hthree] at hb
    simp only [List.mem_cons, List.not_mem_nil, or_false] at hb
    rcases hb with hb | hb | hb <;> rw [hb] <;> exact hor _ _ (by decide)
  · rw [String.utf8EncodeChar_eq_cons_cons_cons_cons hfour] at hb
    simp only [List.mem_cons, List.not_mem_nil, or_false] at hb
    rcases hb with hb | hb | hb | hb <;> rw [hb] <;> exact hor _ _ (by decide)

/-- A text that starts with an ASCII character starts with its byte. -/
theorem utf8Bytes_ascii {c : Char} (h : c.toNat < 128) (text : List Char) :
    ∃ b : UInt8, utf8Bytes (c :: text) = b :: utf8Bytes text ∧ b.toNat = c.toNat := by
  obtain ⟨b, hencode, hb⟩ := utf8EncodeChar_ascii h
  exact ⟨b, by rw [utf8Bytes_cons, hencode, List.singleton_append], hb⟩

/-- A text that starts with another character starts with one byte or more above them. -/
theorem utf8Bytes_high {c : Char} (h : 128 ≤ c.toNat) (text : List Char) :
    ∃ (b : UInt8) (more : List UInt8), utf8Bytes (c :: text) = b :: (more ++ utf8Bytes text) ∧
      128 ≤ b.toNat ∧ ∀ x ∈ more, 128 ≤ x.toNat := by
  have hhigh := utf8EncodeChar_high h
  have hlength := String.length_utf8EncodeChar c
  have hpos := c.utf8Size_pos
  rw [utf8Bytes_cons]
  cases hencode : String.utf8EncodeChar c with
  | nil => rw [hencode, List.length_nil] at hlength; omega
  | cons b more =>
    rw [hencode] at hhigh
    exact ⟨b, more, rfl, hhigh b (List.mem_cons_self ..),
      fun x hx => hhigh x (List.mem_cons_of_mem _ hx)⟩

/-- Texts of ASCII characters are their codes, byte by byte. -/
theorem map_utf8Bytes {text : List Char} (h : ∀ c ∈ text, c.toNat < 128) :
    (utf8Bytes text).map UInt8.toNat = text.map Char.toNat := by
  induction text with
  | nil => rfl
  | cons c text ih =>
    obtain ⟨b, hbytes, hb⟩ := utf8Bytes_ascii (h c (List.mem_cons_self ..)) text
    rw [hbytes, List.map_cons, List.map_cons, hb,
      ih fun c hc => h c (List.mem_cons_of_mem _ hc)]

theorem utf8Len_ascii {text : List Char} (h : ∀ c ∈ text, c.toNat < 128) :
    utf8Len text = text.length := by
  have hlength := congrArg List.length (map_utf8Bytes h)
  rwa [List.length_map, List.length_map, length_utf8Bytes] at hlength

/-- Only ASCII characters have bytes below the others. -/
theorem ascii_of_utf8Bytes {text : List Char} (h : ∀ b ∈ utf8Bytes text, b.toNat < 128) :
    ∀ c ∈ text, c.toNat < 128 := by
  induction text with
  | nil => intro c hc; exact absurd hc List.not_mem_nil
  | cons c text ih =>
    intro d hd
    have hrest : ∀ b ∈ utf8Bytes text, b.toNat < 128 :=
      fun b hb => h b (List.mem_append_right _ hb)
    rcases List.mem_cons.mp hd with heq | hmem
    · rw [heq]
      by_contra hhigh
      obtain ⟨b, more, hbytes, hb, _⟩ := utf8Bytes_high (Nat.le_of_not_lt hhigh) text
      have hlow := h b (hbytes ▸ List.mem_cons_self ..)
      omega
    · exact ih hrest d hmem

/-- A text that is cut into two. -/
theorem append_of_slices {text a b : List Char} {n : Nat} (hto : sliceTo text n = some a)
    (hfrom : sliceFrom text n = some b) : text = a ++ b ∧ utf8Len a = n := by
  induction text generalizing n a with
  | nil =>
    cases n with
    | zero =>
      rw [sliceTo_zero, Option.some_inj] at hto
      rw [sliceFrom_zero, Option.some_inj] at hfrom
      rw [← hto, ← hfrom]
      exact ⟨rfl, rfl⟩
    | succ n => cases hto
  | cons c text ih =>
    cases n with
    | zero =>
      rw [sliceTo_zero, Option.some_inj] at hto
      rw [sliceFrom_zero, Option.some_inj] at hfrom
      rw [← hto, ← hfrom]
      exact ⟨rfl, rfl⟩
    | succ n =>
      rw [sliceTo_succ] at hto
      rw [sliceFrom_succ] at hfrom
      by_cases hfit : c.utf8Size ≤ n + 1
      · rw [if_pos hfit] at hto hfrom
        obtain ⟨rest, hrest, ha⟩ := Option.map_eq_some_iff.mp hto
        have hcut := ih hrest hfrom
        rw [← ha, utf8Len_cons, hcut.2, List.cons_append, ← hcut.1]
        exact ⟨rfl, by omega⟩
      · rw [if_neg hfit] at hto
        cases hto

end Agend.Library
