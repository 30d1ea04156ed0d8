import Agend.Library.Framing

/-! A buffered reader over a source that brings a stream in pieces, with events between them. -/
namespace Agend.Library

section

variable {α β ε ι κ σ : Type*}

/-- A piece of the stream is not empty: an empty read is the end. -/
inductive Arrival (α ε : Type*)
  | bytes (first : α) (rest : List α)
  | event (e : ε)
deriving DecidableEq

def Arrival.toList : Arrival α ε → List α
  | .bytes first rest => first :: rest
  | .event _ => []

def bytesOf (arrivals : List (Arrival α ε)) : List α := arrivals.flatMap Arrival.toList

/-- A read of the source: a piece, nothing at the end, or why it brings nothing. -/
abbrev Read (α ε κ : Type*) := List (Arrival α ε) → Except κ (List α) × List (Arrival α ε)

/-- No read skips a piece, and only the end reads as nothing. -/
structure Read.Lawful (read : Read α ε κ) : Prop where
  suffix : ∀ arrivals, (read arrivals).2 <:+ arrivals
  ok : ∀ arrivals piece arrivals', read arrivals = (.ok piece, arrivals') →
    bytesOf arrivals = piece ++ bytesOf arrivals' ∧ (piece = [] → bytesOf arrivals = [])
  error : ∀ arrivals e arrivals', read arrivals = (.error e, arrivals') →
    bytesOf arrivals = bytesOf arrivals' ∧ arrivals'.length < arrivals.length

structure BufReader (α ε : Type*) where
  buffer : List α
  arrivals : List (Arrival α ε)
deriving DecidableEq

namespace BufReader

variable {read : Read α ε κ} {r r' : BufReader α ε} {piece : List α} {e : κ} {n : Nat}

def fresh (arrivals : List (Arrival α ε)) : BufReader α ε := ⟨[], arrivals⟩

def unread (r : BufReader α ε) : List α := r.buffer ++ bytesOf r.arrivals

def size (r : BufReader α ε) : Nat := r.unread.length + r.arrivals.length

/-- What is there, or what a read brings. -/
def fillBuf (read : Read α ε κ) (r : BufReader α ε) : Except κ (List α) × BufReader α ε :=
  if r.buffer = [] then
    match read r.arrivals with
    | (.ok piece, arrivals) => (.ok piece, ⟨piece, arrivals⟩)
    | (.error e, arrivals) => (.error e, ⟨[], arrivals⟩)
  else (.ok r.buffer, r)

def consume (r : BufReader α ε) (n : Nat) : BufReader α ε := { r with buffer := r.buffer.drop n }

@[simp] theorem unread_fresh (arrivals : List (Arrival α ε)) :
    (fresh arrivals).unread = bytesOf arrivals := rfl

theorem fillBuf_suffix {got : Except κ (List α)} (h : read.Lawful)
    (hfill : r.fillBuf read = (got, r')) : r'.arrivals <:+ r.arrivals := by
  have hsuffix := h.suffix r.arrivals
  unfold fillBuf at hfill
  split at hfill
  · split at hfill
    next heq =>
      cases hfill
      rwa [heq] at hsuffix
    next heq =>
      cases hfill
      rwa [heq] at hsuffix
  · cases hfill
    exact List.suffix_rfl

theorem fillBuf_ok (h : read.Lawful) (hfill : r.fillBuf read = (.ok piece, r')) :
    r'.buffer = piece ∧ r'.unread = r.unread ∧ r'.size ≤ r.size ∧ (piece = [] → r.unread = []) := by
  have hlength := (fillBuf_suffix h hfill).length_le
  have hrest : r'.buffer = piece ∧ r'.unread = r.unread ∧ (piece = [] → r.unread = []) := by
    unfold fillBuf at hfill
    split at hfill
    next hempty =>
      split at hfill
      next got arrivals heq =>
        obtain ⟨hbytes, hend⟩ := h.ok _ _ _ heq
        cases hfill
        simp only [unread, hempty, List.nil_append]
        exact ⟨trivial, hbytes.symm, hend⟩
      next => cases hfill
    next hfull =>
      cases hfill
      exact ⟨rfl, rfl, fun hnil => absurd hnil hfull⟩
  obtain ⟨hbuffer, hunread, hend⟩ := hrest
  refine ⟨hbuffer, hunread, ?_, hend⟩
  unfold size
  rw [hunread]
  omega

theorem fillBuf_error_read (hfill : r.fillBuf read = (.error e, r')) :
    ∃ arrivals, read r.arrivals = (.error e, arrivals) := by
  unfold fillBuf at hfill
  split at hfill
  · split at hfill
    next => cases hfill
    next e' arrivals heq =>
      cases hfill
      exact ⟨arrivals, heq⟩
  · cases hfill

theorem fillBuf_error (h : read.Lawful) (hfill : r.fillBuf read = (.error e, r')) :
    r'.unread = r.unread ∧ r'.size < r.size := by
  unfold fillBuf at hfill
  split at hfill
  next hempty =>
    split at hfill
    next => cases hfill
    next e' arrivals heq =>
      obtain ⟨hbytes, hlength⟩ := h.error _ _ _ heq
      cases hfill
      simp only [size, unread, hempty, List.nil_append, hbytes]
      exact ⟨trivial, by omega⟩
  next => cases hfill

theorem unread_consume : r.unread = r.buffer.take n ++ (r.consume n).unread := by
  simp only [unread, consume]
  rw [← List.append_assoc, List.take_append_drop]

theorem size_consume (hbuffer : r.buffer ≠ []) (hn : 0 < n) : (r.consume n).size < r.size := by
  have hlength := List.length_pos_iff.mpr hbuffer
  have hdrop : (r.buffer.drop n).length < r.buffer.length := by
    rw [List.length_drop]
    omega
  simp only [size, unread, consume, List.length_append]
  omega

/-- A round of a loop that reads a line. -/
theorem size_round (h : read.Lawful) {first : α} {rest : List α}
    (hfill : r.fillBuf read = (.ok (first :: rest), r')) (hn : 0 < n) :
    (r'.consume n).size < r.size := by
  obtain ⟨hbuffer, _, hsize, _⟩ := fillBuf_ok h hfill
  have hne : r'.buffer ≠ [] := by
    rw [hbuffer]
    nofun
  exact Nat.lt_of_lt_of_le (size_consume hne hn) hsize

variable [DecidableEq α] {newline : α} {start : List α} {i : Nat}

/-- The newline is in the buffer: what is there of the line ends at it. -/
theorem round_found (h : read.Lawful) (hfill : r.fillBuf read = (.ok piece, r'))
    (hstart : newline ∉ start) (hfound : piece.findIdx? (· = newline) = some i) :
    newline ∉ start ++ piece.take i ∧ (start ++ piece.take i).length = start.length + i ∧
      piece.take (i + 1) = piece.take i ++ [newline] ∧
      start ++ r.unread = (start ++ piece.take i) ++ newline :: (r'.consume (i + 1)).unread := by
  obtain ⟨hbuffer, hunread, _⟩ := fillBuf_ok h hfill
  obtain ⟨hnot, _⟩ := split_of_findIdx? hfound
  obtain ⟨hlt, hat, _⟩ := List.findIdx?_eq_some_iff_getElem.mp hfound
  have htake : piece.take (i + 1) = piece.take i ++ [newline] := by
    have hget : piece[i] = newline := of_decide_eq_true hat
    rw [List.take_succ_eq_append_getElem hlt, hget]
  refine ⟨?_, ?_, htake, ?_⟩
  · intro hmem
    cases List.mem_append.mp hmem with
    | inl hmem => exact hstart hmem
    | inr hmem => exact hnot hmem
  · rw [List.length_append, List.length_take]
    omega
  · rw [← hunread, unread_consume (n := i + 1), hbuffer, htake]
    simp

/-- It is not: all of the buffer is of the line. -/
theorem round_more (h : read.Lawful) (hfill : r.fillBuf read = (.ok piece, r'))
    (hstart : newline ∉ start) (hnone : piece.findIdx? (· = newline) = none) :
    newline ∉ start ++ piece ∧
      start ++ r.unread = (start ++ piece) ++ (r'.consume piece.length).unread := by
  obtain ⟨hbuffer, hunread, _⟩ := fillBuf_ok h hfill
  constructor
  · intro hmem
    cases List.mem_append.mp hmem with
    | inl hmem => exact hstart hmem
    | inr hmem => exact not_mem_of_findIdx? hnone hmem
  · rw [← hunread, unread_consume (n := piece.length), hbuffer, List.take_length,
      List.append_assoc]

/-- What is there of the line and in the buffer of it is too long. -/
theorem round_refused {F : Framer α β ι σ} {limit ending : Nat}
    (hexceeds : F.exceeds = tooLong limit ending) (h : read.Lawful)
    (hfill : r.fillBuf read = (.ok piece, r')) (hstart : F.newline ∉ start)
    (hlong : limit <
      start.length + (piece.findIdx? (· = F.newline)).elim piece.length (· + ending)) :
    F.Refuses (start ++ r.unread) := by
  cases hfound : piece.findIdx? (· = F.newline) with
  | none =>
    obtain ⟨hnot, hstream⟩ := round_more h hfill hstart hfound
    rw [hstream]
    apply Framer.Refuses.of_start _ hnot
    intro rest terminated
    rw [hexceeds]
    apply tooLong_append
    apply decide_eq_true
    rw [hfound, Option.elim_none] at hlong
    rw [List.length_append]
    omega
  | some i =>
    obtain ⟨hnot, hlength, _, hstream⟩ := round_found h hfill hstart hfound
    right
    refine ⟨start ++ piece.take i, _, hnot, ?_, hstream⟩
    rw [hexceeds]
    apply decide_eq_true
    rw [hfound, Option.elim_some] at hlong
    rw [hlength, if_pos rfl]
    omega

end BufReader

end

end Agend.Library
