import Mathlib.Algebra.GroupWithZero.Nat
import Agend.Library.Utf8
import Agend.Telegram.Delivery

/-! The parts of a notification: what they hold of it, and how long they are. -/
namespace Agend.Telegram

open Library

/-- The text of a notification that its parts are cut from. -/
def payload (note : Notification) : String :=
  let task := note.taskId.getD "—"
  s!"[{note.severity.text}]\nTitle: {note.title}\nTask: {task}\n\n{note.body}"

/-- UTF-16 units of a text. -/
def utf16Len (text : List Char) : Nat := (text.map lenUtf16).sum

/-- A chunk between the header line and the closing frame line. -/
def part (index total : Nat) (chunk : String) : String :=
  s!"AgEnD · {index + 1}/{total}\n{chunk}\n——"

/-- The loop of `render` with its byte offsets; none where the source would panic. -/
def cut (text : List Char) (start units : Nat) : List (Nat × Char) → Option (List String)
  | [] => do
    let chunk ← sliceFrom text start
    return [String.ofList chunk]
  | (offset, c) :: rest =>
    if units + lenUtf16 c > 4000 then do
      let chunk ← slice text start offset
      let chunks ← cut text offset (lenUtf16 c) rest
      return String.ofList chunk :: chunks
    else cut text start (units + lenUtf16 c) rest

theorem chunks_nil (chunk : List Char) (units : Nat) :
    chunks chunk units [] = [String.ofList chunk.reverse] := rfl

theorem chunks_cons (chunk rest : List Char) (units : Nat) (c : Char) :
    chunks chunk units (c :: rest) =
      if units + lenUtf16 c > 4000 then String.ofList chunk.reverse :: chunks [c] (lenUtf16 c) rest
      else chunks (c :: chunk) (units + lenUtf16 c) rest := rfl

@[simp] theorem utf16Len_nil : utf16Len [] = 0 := rfl

@[simp] theorem utf16Len_cons (c : Char) (text : List Char) :
    utf16Len (c :: text) = lenUtf16 c + utf16Len text := by
  simp [utf16Len]

@[simp] theorem utf16Len_append (a b : List Char) :
    utf16Len (a ++ b) = utf16Len a + utf16Len b := by
  simp [utf16Len]

@[simp] theorem utf16Len_reverse (text : List Char) : utf16Len text.reverse = utf16Len text := by
  simp [utf16Len, List.sum_reverse]

theorem lenUtf16_le (c : Char) : lenUtf16 c ≤ 2 := by
  unfold lenUtf16
  split <;> omega

theorem render_eq (note : Notification) :
    render note = (chunks [] 0 (payload note).toList).mapIdx fun index chunk =>
      part index (chunks [] 0 (payload note).toList).length chunk := rfl

/-- Every cut is between two characters, and the slices are the chunks. -/
theorem cut_eq (before chunk rest : List Char) (units : Nat) :
    cut (before ++ (chunk.reverse ++ rest)) (utf8Len before) units
      (charIndices (utf8Len before + utf8Len chunk.reverse) rest) = some (chunks chunk units rest) := by
  induction rest generalizing before chunk units with
  | nil =>
    rw [List.append_nil]
    simp only [charIndices, cut, sliceFrom_append, chunks_nil]
    rfl
  | cons c rest ih =>
    simp only [charIndices, cut, chunks_cons]
    by_cases hfull : units + lenUtf16 c > 4000
    · have hnext := ih (before ++ chunk.reverse) [c] (lenUtf16 c)
      simp only [List.append_assoc, List.reverse_singleton, utf8Len_append, utf8Len_cons,
        utf8Len_nil, List.singleton_append, Nat.add_zero] at hnext
      rw [if_pos hfull, if_pos hfull, slice_append, hnext]
      rfl
    · have hnext := ih before (c :: chunk) (units + lenUtf16 c)
      simp only [List.reverse_cons, List.append_assoc, utf8Len_append, utf8Len_cons, utf8Len_nil,
        List.singleton_append, Nat.add_zero, ← Nat.add_assoc] at hnext
      rw [if_neg hfull, if_neg hfull, Nat.add_assoc, ← Nat.add_assoc]
      exact hnext

theorem cut_payload (text : List Char) :
    cut text 0 0 (charIndices 0 text) = some (chunks [] 0 text) :=
  cut_eq [] [] text 0

theorem chunks_flatMap (chunk rest : List Char) (units : Nat) :
    (chunks chunk units rest).flatMap String.toList = chunk.reverse ++ rest := by
  induction rest generalizing chunk units with
  | nil => simp [chunks_nil]
  | cons c rest ih =>
    rw [chunks_cons]
    by_cases hfull : units + lenUtf16 c > 4000
    · rw [if_pos hfull, List.flatMap_cons, ih]
      simp
    · rw [if_neg hfull, ih]
      simp

/-- The first chunk begins with what is there of it. -/
theorem chunks_head (chunk rest : List Char) (units : Nat) :
    ∃ more others, chunks chunk units rest = String.ofList (chunk.reverse ++ more) :: others := by
  induction rest generalizing chunk units with
  | nil => exact ⟨[], [], by simp [chunks_nil]⟩
  | cons c rest ih =>
    rw [chunks_cons]
    by_cases hfull : units + lenUtf16 c > 4000
    · rw [if_pos hfull]
      exact ⟨[], chunks [c] (lenUtf16 c) rest, by simp⟩
    · rw [if_neg hfull]
      obtain ⟨more, others, heq⟩ := ih (c :: chunk) (units + lenUtf16 c)
      exact ⟨c :: more, others, by simp [heq]⟩

theorem chunks_units (chunk rest : List Char) (hunits : utf16Len chunk ≤ 4000) :
    ∀ text ∈ chunks chunk (utf16Len chunk) rest, utf16Len text.toList ≤ 4000 := by
  induction rest generalizing chunk with
  | nil =>
    intro text htext
    rw [chunks_nil, List.mem_singleton] at htext
    simpa [htext] using hunits
  | cons c rest ih =>
    have hc := lenUtf16_le c
    rw [chunks_cons]
    by_cases hfull : utf16Len chunk + lenUtf16 c > 4000
    · rw [if_pos hfull]
      intro text htext
      cases htext with
      | head => simpa using hunits
      | tail _ htext =>
        have hone := ih [c] (by simp; omega)
        rw [utf16Len_cons, utf16Len_nil, Nat.add_zero] at hone
        exact hone text htext
    · rw [if_neg hfull]
      have hmore := ih (c :: chunk) (by simp; omega)
      rw [utf16Len_cons, Nat.add_comm] at hmore
      exact hmore

theorem chunks_ne_empty (chunk rest : List Char) (units : Nat) (hsize : utf16Len chunk = units)
    (h : chunk ≠ [] ∨ rest ≠ []) : ∀ text ∈ chunks chunk units rest, text ≠ "" := by
  induction rest generalizing chunk units with
  | nil =>
    intro text htext
    have hchunk : chunk ≠ [] := h.resolve_right (fun hne => hne rfl)
    rw [chunks_nil, List.mem_singleton] at htext
    simpa [htext] using hchunk
  | cons c rest ih =>
    have hc := lenUtf16_le c
    rw [chunks_cons]
    by_cases hfull : units + lenUtf16 c > 4000
    · have hchunk : chunk ≠ [] := by
        intro hnil
        rw [hnil, utf16Len_nil] at hsize
        omega
      rw [if_pos hfull]
      intro text htext
      cases htext with
      | head => simpa using hchunk
      | tail _ htext => exact ih [c] _ (by simp) (.inl (List.cons_ne_nil _ _)) text htext
    · rw [if_neg hfull]
      apply ih (c :: chunk) _ _ (.inl (List.cons_ne_nil _ _))
      rw [utf16Len_cons, hsize, Nat.add_comm]

/-- No chunk leaves room for the first character of the next one. -/
def Filled (chunk next : String) : Prop :=
  ∀ c ∈ next.toList.head?, 4000 < utf16Len chunk.toList + lenUtf16 c

theorem chunks_filled (chunk rest : List Char) :
    (chunks chunk (utf16Len chunk) rest).IsChain Filled := by
  induction rest generalizing chunk with
  | nil => simp [chunks_nil]
  | cons c rest ih =>
    rw [chunks_cons]
    by_cases hfull : utf16Len chunk + lenUtf16 c > 4000
    · obtain ⟨more, others, heq⟩ := chunks_head [c] rest (lenUtf16 c)
      have htail := ih [c]
      rw [utf16Len_cons, utf16Len_nil, Nat.add_zero, heq] at htail
      rw [if_pos hfull, heq, List.isChain_cons_cons]
      refine ⟨?_, htail⟩
      intro d hd
      have hcd : c = d := by simpa using hd
      rw [← hcd]
      simpa using hfull
    · rw [if_neg hfull]
      have hmore := ih (c :: chunk)
      rw [utf16Len_cons, Nat.add_comm] at hmore
      exact hmore

theorem payload_ne_nil (note : Notification) : (payload note).toList ≠ [] := by
  intro hnil
  have hbracket : '[' ∈ (payload note).toList := by simp [payload, ToString.toString]
  rw [hnil] at hbracket
  exact List.not_mem_nil hbracket

/-- A body that alone would fill a part takes several. -/
theorem one_lt_length_render {note : Notification} (hbody : 4000 ≤ utf16Len note.body.toList) :
    1 < (render note).length := by
  have h : 4000 < utf16Len (payload note).toList := by
    have hline : utf16Len "\n\n".toList = 2 := by decide
    simp only [payload, ToString.toString, String.toList_append, utf16Len_append, hline]
    omega
  have hwhole := chunks_flatMap [] (payload note).toList 0
  have hunits := chunks_units [] (payload note).toList (Nat.zero_le _)
  rw [render_eq, List.length_mapIdx]
  rw [utf16Len_nil] at hunits
  cases hchunks : chunks [] 0 (payload note).toList with
  | nil =>
    rw [hchunks, List.flatMap_nil] at hwhole
    exact absurd hwhole.symm (payload_ne_nil note)
  | cons text rest =>
    cases rest with
    | nil =>
      have hbound := hunits text (hchunks ▸ List.mem_singleton_self text)
      rw [hchunks, List.flatMap_singleton] at hwhole
      rw [hwhole] at hbound
      exact absurd hbound (Nat.not_le.mpr h)
    | cons _ rest => exact Nat.one_lt_succ_succ rest.length

theorem utf16Len_repr {n : Nat} (h : n < 10 ^ 30) : utf16Len n.repr.toList ≤ 30 := by
  have hone : ∀ c ∈ n.repr.toList, lenUtf16 c = 1 := by
    intro c hc
    rw [Nat.toList_repr] at hc
    have hdigit : c.isDigit = true := Nat.isDigit_of_mem_toDigits (by decide) (by decide) hc
    have hle : c.toNat ≤ 57 := (Char.isDigit_iff_toNat.mp hdigit).2
    rw [lenUtf16, if_pos (by omega)]
  have hsum : utf16Len n.repr.toList = n.repr.toList.length := by
    rw [utf16Len, List.map_congr_left hone]
    simp
  rw [hsum, String.length_toList]
  exact (Nat.length_repr_le_iff (by decide)).mpr h

theorem part_units {index total : Nat} {chunk : String} (hindex : index < total)
    (htotal : total < 10 ^ 30) (hchunk : utf16Len chunk.toList ≤ 4000) :
    utf16Len (part index total chunk).toList ≤ 4096 := by
  have hi := utf16Len_repr (show index + 1 < 10 ^ 30 by omega)
  have ht := utf16Len_repr htotal
  have heq : part index total chunk = "AgEnD · " ++ (index + 1).repr ++ "/" ++ total.repr ++ "\n" ++
      chunk ++ "\n——" := rfl
  have hhead : utf16Len "AgEnD · ".toList = 8 := by decide
  have hslash : utf16Len "/".toList = 1 := by decide
  have hline : utf16Len "\n".toList = 1 := by decide
  have hframe : utf16Len "\n——".toList = 3 := by decide
  rw [heq]
  simp only [String.toList_append, utf16Len_append, hhead, hslash, hline, hframe]
  omega

/-- What the parts of a notification hold: chunks that together are the whole payload, each as
long as 4000 units allow. -/
structure Lossless (note : Notification) (chunks : List String) : Prop where
  parts : render note = chunks.mapIdx fun index chunk => part index chunks.length chunk
  ne_nil : chunks ≠ []
  whole : chunks.flatMap String.toList = (payload note).toList
  nonempty : ∀ chunk ∈ chunks, chunk ≠ ""
  bounded : ∀ chunk ∈ chunks, utf16Len chunk.toList ≤ 4000
  longest : chunks.IsChain Filled

/-- The loop of the source does not panic, its chunks are lossless and as long as possible, and
with fewer than 10^30 parts each one stays within 4096 units. -/
theorem parts_lossless (note : Notification) :
    ∃ chunks, cut (payload note).toList 0 0 (charIndices 0 (payload note).toList) = some chunks ∧
      Lossless note chunks ∧
      (chunks.length < 10 ^ 30 → ∀ text ∈ render note, utf16Len text.toList ≤ 4096) := by
  have hne := payload_ne_nil note
  have hparts := render_eq note
  have hbounded := chunks_units [] (payload note).toList (by simp)
  have hnonempty := chunks_ne_empty [] (payload note).toList 0 rfl (.inr hne)
  have hlongest := chunks_filled [] (payload note).toList
  have hwhole := chunks_flatMap [] (payload note).toList 0
  have hcut := cut_payload (payload note).toList
  rw [utf16Len_nil] at hbounded hlongest
  generalize hchunks : chunks [] 0 (payload note).toList = texts at *
  have hnil : texts ≠ [] := by
    intro hnil
    rw [hnil, List.flatMap_nil, List.reverse_nil, List.nil_append] at hwhole
    exact hne hwhole.symm
  refine ⟨texts, hcut, ⟨hparts, hnil, hwhole, hnonempty, hbounded, hlongest⟩, ?_⟩
  intro htotal text htext
  rw [hparts] at htext
  obtain ⟨index, hindex, heq⟩ := List.mem_mapIdx.mp htext
  rw [← heq]
  exact part_units hindex htotal (hbounded _ (List.getElem_mem hindex))

/-- A notification of several parts. -/
def long : Notification := ⟨.info, "t", String.ofList (List.replicate 4000 'b'), none⟩

theorem one_lt_long : 1 < (render long).length := by
  have hchar : lenUtf16 'b' = 1 := by decide
  apply one_lt_length_render
  rw [long, String.toList_ofList, utf16Len, List.map_replicate, List.sum_replicate_nat, hchar]

theorem length_payload (note : Notification) : (payload note).toList.length =
    note.severity.text.toList.length + note.title.toList.length +
      (note.taskId.getD "—").toList.length + note.body.toList.length + 19 := by
  simp [payload, ToString.toString]
  omega

theorem length_le_flatMap {chunks : List String} (h : ∀ chunk ∈ chunks, chunk ≠ "") :
    chunks.length ≤ (chunks.flatMap String.toList).length := by
  induction chunks with
  | nil => exact Nat.zero_le _
  | cons chunk rest ih =>
    obtain ⟨hchunk, hrest⟩ := List.forall_mem_cons.mp h
    have hpos : 0 < chunk.toList.length :=
      List.length_pos_of_ne_nil fun hnil => hchunk (String.toList_eq_nil_iff.mp hnil)
    have hle := ih hrest
    rw [List.length_cons, List.flatMap_cons, List.length_append]
    omega

theorem parts_lossless_long :
    1 < (render long).length ∧ ∀ text ∈ render long, utf16Len text.toList ≤ 4096 := by
  obtain ⟨chunks, -, hlossless, hshort⟩ := parts_lossless long
  have hlength := length_payload long
  have hbody : long.body.toList.length = 4000 := by
    rw [long, String.toList_ofList, List.length_replicate]
  have hother : long.severity = .info ∧ long.title = "t" ∧ long.taskId = none := ⟨rfl, rfl, rfl⟩
  have hsmall : NotificationSeverity.info.text.toList.length + "t".toList.length +
      ((none : Option String).getD "—").toList.length = 6 := by decide
  rw [hbody, hother.1, hother.2.1, hother.2.2, hsmall] at hlength
  have hle := length_le_flatMap hlossless.nonempty
  rw [hlossless.whole] at hle
  exact ⟨one_lt_long, hshort (by omega)⟩

end Agend.Telegram
