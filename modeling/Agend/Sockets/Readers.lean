import Agend.Library.Buffered
import Agend.Connection.Exchange
import Agend.Holder.Control

/-! The three readers of protocol lines: the holder's, the daemon's for its clients, and the
daemon's for its holders. -/
namespace Agend.Sockets

open Library
open Agend.Connection (newline maxLineBytes)
open Agend.Holder (maxFrameLine)

/-- The longest request line, with its newline. -/
def maxRequestLine : Nat := 1 <<< 20

inductive IoErrorKind
  | interrupted
  | wouldBlock
  | timedOut
deriving DecidableEq

/-- What happens on a blocking socket between two pieces: a signal, or the deadline of the call. -/
inductive Event
  | interrupted
  | late
deriving DecidableEq

/-- The future that reads is dropped. -/
inductive Cancelled
  | cancelled
deriving DecidableEq

abbrev Blocking := BufReader UInt8 Event

/-- `Instant::now()` is at the deadline, or behind it. -/
def passed (reader : Blocking) : Option Blocking :=
  match reader.arrivals with
  | .event .late :: arrivals => some { reader with arrivals := arrivals }
  | _ => none

/-! Sources. -/

/-- A socket with a read timeout, or without one. -/
def UnixStream.read (timeout : Bool) : Read UInt8 Event IoErrorKind
  | [] => (.ok [], [])
  | .bytes first rest :: arrivals => (.ok (first :: rest), arrivals)
  | .event .interrupted :: arrivals => (.error .interrupted, arrivals)
  | .event .late :: arrivals =>
    if timeout then (.error .wouldBlock, arrivals) else UnixStream.read timeout arrivals

def OwnedReadHalf.read : Read UInt8 Cancelled Cancelled
  | [] => (.ok [], [])
  | .bytes first rest :: arrivals => (.ok (first :: rest), arrivals)
  | .event e :: arrivals => (.error e, arrivals)

/-- The holder link's socket, which polls up to a deadline and goes on after a signal. -/
def SocketReader.read (deadline : Bool) : Read UInt8 Event IoErrorKind
  | [] => (.ok [], [])
  | .bytes first rest :: arrivals => (.ok (first :: rest), arrivals)
  | .event .interrupted :: arrivals => SocketReader.read deadline arrivals
  | .event .late :: arrivals =>
    if deadline then (.error .timedOut, arrivals) else SocketReader.read deadline arrivals

section

variable {deadline : Bool}

theorem UnixStream.lawful : (UnixStream.read deadline).Lawful where
  suffix arrivals := by
    fun_induction UnixStream.read deadline arrivals with
    | case1 => exact List.suffix_rfl
    | case2 => exact List.suffix_cons ..
    | case3 => exact List.suffix_cons ..
    | case4 => exact List.suffix_cons ..
    | case5 _ _ ih => exact ih.trans (List.suffix_cons ..)
  ok arrivals piece arrivals' h := by
    fun_induction UnixStream.read deadline arrivals with
    | case1 => cases h; exact ⟨rfl, fun _ => rfl⟩
    | case2 => cases h; exact ⟨rfl, nofun⟩
    | case3 => cases h
    | case4 => cases h
    | case5 _ _ ih => exact ih h
  error arrivals e arrivals' h := by
    fun_induction UnixStream.read deadline arrivals with
    | case1 => cases h
    | case2 => cases h
    | case3 => cases h; exact ⟨rfl, Nat.lt_succ_self _⟩
    | case4 => cases h; exact ⟨rfl, Nat.lt_succ_self _⟩
    | case5 _ _ ih => exact ⟨(ih h).1, Nat.lt_succ_of_lt (ih h).2⟩

theorem OwnedReadHalf.lawful : OwnedReadHalf.read.Lawful where
  suffix arrivals := by
    unfold OwnedReadHalf.read
    split
    · exact List.suffix_rfl
    · exact List.suffix_cons ..
    · exact List.suffix_cons ..
  ok arrivals piece arrivals' h := by
    unfold OwnedReadHalf.read at h
    split at h
    · cases h; exact ⟨rfl, fun _ => rfl⟩
    · cases h; exact ⟨rfl, nofun⟩
    · cases h
  error arrivals e arrivals' h := by
    unfold OwnedReadHalf.read at h
    split at h
    · cases h
    · cases h
    · cases h; exact ⟨rfl, Nat.lt_succ_self _⟩

theorem SocketReader.lawful : (SocketReader.read deadline).Lawful where
  suffix arrivals := by
    fun_induction SocketReader.read deadline arrivals with
    | case1 => exact List.suffix_rfl
    | case2 => exact List.suffix_cons ..
    | case3 _ ih => exact ih.trans (List.suffix_cons ..)
    | case4 => exact List.suffix_cons ..
    | case5 _ _ ih => exact ih.trans (List.suffix_cons ..)
  ok arrivals piece arrivals' h := by
    fun_induction SocketReader.read deadline arrivals with
    | case1 => cases h; exact ⟨rfl, fun _ => rfl⟩
    | case2 => cases h; exact ⟨rfl, nofun⟩
    | case3 _ ih => exact ih h
    | case4 => cases h
    | case5 _ _ ih => exact ih h
  error arrivals e arrivals' h := by
    fun_induction SocketReader.read deadline arrivals with
    | case1 => cases h
    | case2 => cases h
    | case3 _ ih => exact ⟨(ih h).1, Nat.lt_succ_of_lt (ih h).2⟩
    | case4 => cases h; exact ⟨rfl, Nat.lt_succ_self _⟩
    | case5 _ _ ih => exact ⟨(ih h).1, Nat.lt_succ_of_lt (ih h).2⟩

theorem passed_some {reader reader' : Blocking} (h : passed reader = some reader') :
    reader'.unread = reader.unread ∧ reader'.size < reader.size := by
  unfold passed at h
  split at h
  next arrivals heq =>
    cases h
    have hunread : reader.unread = reader.buffer ++ bytesOf arrivals := by
      unfold BufReader.unread
      rw [heq]
      rfl
    refine ⟨hunread.symm, ?_⟩
    unfold BufReader.size
    rw [hunread, heq]
    exact Nat.lt_succ_self _
  next => cases h

end

/-! Readers. -/

theorem taken_pos {b : UInt8} {bs : List UInt8} (found : Option Nat) :
    0 < found.elim (b :: bs).length (· + 1) := by
  cases found with
  | none => exact Nat.succ_pos _
  | some i => exact Nat.succ_pos _

/-- The holder's, from what it has of the line. -/
def Holder.readLineFrom (deadline : Bool) (line : List UInt8) (reader : Blocking) :
    Returned (List UInt8) × Blocking :=
  if deadline && (passed reader).isSome then (.broken, reader)
  else
    match _ : reader.fillBuf (UnixStream.read deadline) with
    | (.error .interrupted, reader') => Holder.readLineFrom deadline line reader'
    | (.error _, reader') => (.broken, reader')
    | (.ok [], reader') => (.ended, reader')
    | (.ok (b :: bs), reader') =>
      let buf := b :: bs
      let end_ := buf.findIdx? (· = newline)
      let take := end_.elim buf.length (· + 1)
      let line := line ++ buf.take take
      if maxRequestLine < line.length then (.refused, reader'.consume take)
      else if end_.isSome then (.line line, reader'.consume take)
      else Holder.readLineFrom deadline line (reader'.consume take)
termination_by reader.size
decreasing_by
  · exact (BufReader.fillBuf_error UnixStream.lawful ‹_›).2
  · exact BufReader.size_round UnixStream.lawful ‹_› (taken_pos _)

theorem Holder.readLineFrom_suffix {deadline : Bool} {line : List UInt8} {reader : Blocking} :
    (Holder.readLineFrom deadline line reader).2.arrivals <:+ reader.arrivals := by
  fun_induction Holder.readLineFrom deadline line reader with
  | case1 => exact List.suffix_rfl
  | case2 _ _ _ _ hfill ih => exact ih.trans (BufReader.fillBuf_suffix UnixStream.lawful hfill)
  | case3 _ _ _ _ _ _ hfill => exact BufReader.fillBuf_suffix UnixStream.lawful hfill
  | case4 _ _ _ _ hfill => exact BufReader.fillBuf_suffix UnixStream.lawful hfill
  | case5 _ _ _ _ _ reader' hfill =>
    have hsuffix := BufReader.fillBuf_suffix UnixStream.lawful hfill
    exact hsuffix
  | case6 _ _ _ _ _ _ hfill =>
    have hsuffix := BufReader.fillBuf_suffix UnixStream.lawful hfill
    exact hsuffix
  | case7 _ _ _ _ _ _ hfill _ _ _ _ _ _ ih =>
    have hsuffix := BufReader.fillBuf_suffix UnixStream.lawful hfill
    exact ih.trans hsuffix

/-- `read_line` of the holder, which clears the line. -/
def Holder.readLine (deadline : Bool) (reader : Blocking) : Returned (List UInt8) × Blocking :=
  Holder.readLineFrom deadline [] reader

/-- What a reader keeps between its calls. -/
structure Reading (ε : Type) where
  partial_ : List UInt8
  reader : BufReader UInt8 ε
deriving DecidableEq

def Reading.fresh {ε : Type} (arrivals : List (Arrival UInt8 ε)) : Reading ε :=
  ⟨[], .fresh arrivals⟩

/-- `read_line` of the daemon's server; without an answer, its future was dropped. -/
def Server.readLine (r : Reading Cancelled) : Returned (List UInt8) × Reading Cancelled :=
  match _ : r.reader.fillBuf OwnedReadHalf.read with
  | (.error .cancelled, reader') => (.again, { r with reader := reader' })
  | (.ok [], reader') => (.ended, { r with reader := reader' })
  | (.ok (b :: bs), reader') =>
    let available := b :: bs
    let found := available.findIdx? (· = newline)
    let take := found.getD available.length
    if maxLineBytes < r.partial_.length + take then (.refused, { r with reader := reader' })
    else
      let partial_ := r.partial_ ++ available.take take
      let reader' := reader'.consume (if found.isSome then take + 1 else take)
      if found.isSome then (.line partial_, ⟨[], reader'⟩)
      else Server.readLine ⟨partial_, reader'⟩
termination_by r.reader.size
decreasing_by
  apply BufReader.size_round OwnedReadHalf.lawful ‹_›
  split
  · exact Nat.succ_pos _
  · rename_i hnone
    rw [Option.not_isSome_iff_eq_none.mp hnone]
    exact Nat.succ_pos _

theorem Server.readLine_ne_broken (r : Reading Cancelled) : (Server.readLine r).1 ≠ .broken := by
  fun_induction Server.readLine r with
  | case1 => nofun
  | case2 => nofun
  | case3 => nofun
  | case4 => nofun
  | case5 _ _ _ _ _ _ _ _ _ _ _ _ ih => exact ih

/-- `Conn::recv`; `again` is no response in time. -/
def Conn.recv {β : Type} (decodeResponse : List UInt8 → β) (deadline : Bool) (r : Reading Event) :
    Returned β × Reading Event :=
  match if deadline then passed r.reader else none with
  | some reader' => (.again, { r with reader := reader' })
  | none =>
    match _ : r.reader.fillBuf (SocketReader.read deadline) with
    | (.ok [], reader') => (.ended, { r with reader := reader' })
    | (.ok (b :: bs), reader') =>
      let chunk := b :: bs
      let end_ := chunk.findIdx? (· = newline)
      let take := end_.elim chunk.length (· + 1)
      if maxFrameLine < r.partial_.length + take then (.refused, { r with reader := reader' })
      else
        let partial_ := r.partial_ ++ chunk.take take
        let reader' := reader'.consume take
        if end_.isSome then (.line (decodeResponse partial_), ⟨[], reader'⟩)
        else Conn.recv decodeResponse deadline ⟨partial_, reader'⟩
    | (.error .wouldBlock, reader') => (.again, { r with reader := reader' })
    | (.error .timedOut, reader') => (.again, { r with reader := reader' })
    | (.error .interrupted, reader') =>
      Conn.recv decodeResponse deadline { r with reader := reader' }
termination_by r.reader.size
decreasing_by
  · exact BufReader.size_round SocketReader.lawful ‹_› (taken_pos _)
  · exact (BufReader.fillBuf_error SocketReader.lawful ‹_›).2

theorem Conn.recv_ne_broken {β : Type} (decodeResponse : List UInt8 → β) (deadline : Bool)
    (r : Reading Event) : (Conn.recv decodeResponse deadline r).1 ≠ .broken := by
  fun_induction Conn.recv decodeResponse deadline r with
  | case1 => nofun
  | case2 => nofun
  | case3 => nofun
  | case4 => nofun
  | case5 _ _ _ _ _ _ _ _ _ _ _ _ _ ih => exact ih
  | case6 => nofun
  | case7 => nofun
  | case8 _ _ _ _ ih => exact ih

end Agend.Sockets
