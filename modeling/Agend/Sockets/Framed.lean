import Agend.Sockets.Readers

/-! What the readers return does not depend on how the bytes arrive. -/
namespace Agend.Sockets

open Library
open Agend.Connection (newline maxLineBytes)
open Agend.Holder (maxFrameLine)

/-- A request line is returned with its newline, which counts. -/
def Holder.lines : Framer UInt8 (List UInt8) Bool Blocking where
  newline := newline
  exceeds := tooLong maxRequestLine 1
  deliver text := text ++ [newline]
  pending := BufReader.unread
  size := BufReader.size
  call := Holder.readLine

def Reading.pending {ε : Type} (r : Reading ε) : List UInt8 := r.partial_ ++ r.reader.unread

/-- A request line is returned without its newline, which does not count. -/
def Server.lines : Framer UInt8 (List UInt8) Unit (Reading Cancelled) where
  newline := newline
  exceeds := tooLong maxLineBytes 0
  deliver text := text
  pending := Reading.pending
  size r := r.reader.size
  call _ := Server.readLine

/-- A response line is decoded with its newline, which counts. -/
def Conn.lines {β : Type} (decodeResponse : List UInt8 → β) :
    Framer UInt8 β Bool (Reading Event) where
  newline := newline
  exceeds := tooLong maxFrameLine 1
  deliver text := decodeResponse (text ++ [newline])
  pending := Reading.pending
  size r := r.reader.size
  call := Conn.recv decodeResponse

section

variable {deadline : Bool} {line : List UInt8} {reader : Blocking}

theorem Holder.readLineFrom_answers (hnot : newline ∉ line)
    (hfits : line.length ≤ maxRequestLine) :
    Holder.lines.Answers (line ++ reader.unread) reader.size
      (Holder.readLineFrom deadline line reader) := by
  fun_induction Holder.readLineFrom deadline line reader with
  | case1 => trivial
  | case2 line reader _ reader' hfill ih =>
    obtain ⟨hunread, hsize⟩ := BufReader.fillBuf_error UnixStream.lawful hfill
    rw [← hunread]
    exact (ih hnot hfits).of_lt hsize.le
  | case3 => trivial
  | case4 line reader _ reader' hfill =>
    obtain ⟨_, _, _, hend⟩ := BufReader.fillBuf_ok UnixStream.lawful hfill
    rw [hend rfl, List.append_nil]
    exact ⟨hnot, decide_eq_false (by simpa using hfits)⟩
  | case5 line reader _ b bs reader' hfill buf end_ take line' hexceeds =>
    apply BufReader.round_refused (F := Holder.lines) rfl UnixStream.lawful hfill hnot
    rw [List.length_append] at hexceeds
    exact Nat.lt_of_lt_of_le hexceeds (Nat.add_le_add_left (List.length_take_le _ _) _)
  | case6 line reader _ b bs reader' hfill buf end_ take line' hfine hsome =>
    obtain ⟨i, hfound⟩ := Option.isSome_iff_exists.mp hsome
    obtain ⟨hnot', _, htake, hstream⟩ :=
      BufReader.round_found UnixStream.lawful hfill hnot hfound
    have htaken : take = i + 1 := by simp only [take, hfound, Option.elim_some]
    have hline : line' = line ++ buf.take i ++ [newline] := by
      simp only [line', htaken]
      rw [htake, List.append_assoc]
    rw [hline, List.length_append] at hfine
    constructor
    · exact BufReader.size_round UnixStream.lawful hfill (taken_pos _)
    · exact ⟨line ++ buf.take i, hnot', decide_eq_false hfine, hline, htaken ▸ hstream⟩
  | case7 line reader _ b bs reader' hfill buf end_ take line' hfine hnone ih =>
    have hfound : end_ = none := Option.not_isSome_iff_eq_none.mp hnone
    obtain ⟨hnot', hstream⟩ := BufReader.round_more UnixStream.lawful hfill hnot hfound
    have htaken : take = buf.length := by simp only [take, hfound, Option.elim_none]
    have hline : line' = line ++ buf := by simp [line', htaken]
    have hsize : (reader'.consume take).size < reader.size :=
      BufReader.size_round UnixStream.lawful hfill (taken_pos _)
    rw [hline, htaken] at ih ⊢
    rw [hline] at hfine
    rw [hstream]
    exact (ih hnot' (by omega)).of_lt (htaken ▸ hsize.le)

theorem UnixStream.read_error {arrivals arrivals' : List (Arrival UInt8 Event)} {e : IoErrorKind}
    (hintime : .event .late ∉ arrivals)
    (h : UnixStream.read deadline arrivals = (.error e, arrivals')) : e = .interrupted := by
  cases arrivals with
  | nil => cases h
  | cons arrival arrivals =>
    cases arrival with
    | bytes first rest => cases h
    | event event =>
      cases event with
      | interrupted => cases h; rfl
      | late => exact absurd List.mem_cons_self hintime

/-- The line is given up with the connection only when the deadline passes. -/
theorem Holder.readLineFrom_ne_broken (hintime : .event .late ∉ reader.arrivals) :
    (Holder.readLineFrom deadline line reader).1 ≠ .broken := by
  fun_induction Holder.readLineFrom deadline line reader with
  | case1 line reader hlate =>
    obtain ⟨reader', hpassed⟩ := Option.isSome_iff_exists.mp (Bool.and_eq_true_iff.mp hlate).2
    unfold passed at hpassed
    split at hpassed
    next arrivals heq => exact absurd (heq ▸ List.mem_cons_self) hintime
    next => cases hpassed
  | case2 _ _ _ _ hfill ih =>
    have hsuffix := BufReader.fillBuf_suffix UnixStream.lawful hfill
    exact ih fun hmem => hintime (hsuffix.mem hmem)
  | case3 _ _ _ _ _ hother hfill =>
    obtain ⟨_, hread⟩ := BufReader.fillBuf_error_read hfill
    exact absurd (UnixStream.read_error hintime hread) hother
  | case4 => intro heq; cases heq
  | case5 => intro heq; cases heq
  | case6 => intro heq; cases heq
  | case7 _ _ _ _ _ _ hfill _ _ _ _ _ _ ih =>
    have hsuffix := BufReader.fillBuf_suffix UnixStream.lawful hfill
    exact ih fun hmem => hintime (hsuffix.mem hmem)

end

theorem getD_eq_elim (found : Option Nat) (length : Nat) :
    found.getD length = found.elim length (· + 0) := by
  cases found with
  | none => rfl
  | some i => rfl

/-- What is kept between the calls is a line that has not ended and may still fit. -/
def Reading.Partial {ε : Type} (limit : Nat) (r : Reading ε) : Prop :=
  newline ∉ r.partial_ ∧ r.partial_.length ≤ limit

theorem Server.readLine_answers {r : Reading Cancelled} (h : r.Partial maxLineBytes) :
    Server.lines.Answers r.pending r.reader.size (Server.readLine r) ∧
      (Server.readLine r).2.Partial maxLineBytes := by
  fun_induction Server.readLine r with
  | case1 r reader' hfill =>
    obtain ⟨hunread, hsize⟩ := BufReader.fillBuf_error OwnedReadHalf.lawful hfill
    exact ⟨⟨hsize, congrArg (r.partial_ ++ ·) hunread.symm⟩, h⟩
  | case2 r reader' hfill =>
    obtain ⟨_, _, _, hend⟩ := BufReader.fillBuf_ok OwnedReadHalf.lawful hfill
    have hpending : r.pending = r.partial_ := by rw [Reading.pending, hend rfl, List.append_nil]
    rw [hpending]
    exact ⟨⟨h.1, decide_eq_false (by simpa using h.2)⟩, h⟩
  | case3 r b bs reader' hfill available found take hexceeds =>
    obtain ⟨_, hunread, _⟩ := BufReader.fillBuf_ok OwnedReadHalf.lawful hfill
    refine ⟨?_, h⟩
    apply BufReader.round_refused (F := Server.lines) rfl OwnedReadHalf.lawful hfill h.1
    have htaken : take = found.elim available.length (· + 0) := getD_eq_elim found _
    rw [htaken] at hexceeds
    exact hexceeds
  | case4 r b bs reader' hfill available found take hfine partial' reader'' hsome =>
    obtain ⟨i, hfound⟩ := Option.isSome_iff_exists.mp hsome
    obtain ⟨hnot, hlength, htake, hstream⟩ :=
      BufReader.round_found OwnedReadHalf.lawful hfill h.1 hfound
    have htaken : take = i := by simp only [take, hfound, Option.getD_some]
    have hreader : reader'' = reader'.consume (i + 1) := by
      simp only [reader'', dif_pos hsome, htaken]
    refine ⟨⟨?_, ?_⟩, List.not_mem_nil, Nat.zero_le _⟩
    · rw [hreader]
      exact BufReader.size_round OwnedReadHalf.lawful hfill (Nat.succ_pos i)
    · refine ⟨partial', ?_⟩
      rw [show partial' = r.partial_ ++ available.take i from congrArg _ (by rw [htaken])]
      refine ⟨hnot, decide_eq_false ?_, rfl, hreader ▸ hstream⟩
      rw [hlength, ← htaken]
      exact hfine
  | case5 r b bs reader' hfill available found take hfine partial' reader'' hnone ih =>
    have hfound : found = none := Option.not_isSome_iff_eq_none.mp hnone
    obtain ⟨hnot, hstream⟩ := BufReader.round_more OwnedReadHalf.lawful hfill h.1 hfound
    have htaken : take = available.length := by simp only [take, hfound, Option.getD_none]
    have hheld : partial' = r.partial_ ++ available := by simp [partial', htaken]
    have hreader : reader'' = reader'.consume available.length := by
      simp only [reader'', dif_neg hnone, htaken]
    have hsize : (reader'.consume available.length).size < r.reader.size :=
      BufReader.size_round OwnedReadHalf.lawful hfill (Nat.succ_pos _)
    rw [hheld, hreader] at ih ⊢
    have hfits : (r.partial_ ++ available).length ≤ maxLineBytes := by
      rw [List.length_append, ← htaken]
      omega
    obtain ⟨hanswers, hleft⟩ := ih ⟨hnot, hfits⟩
    refine ⟨?_, hleft⟩
    rw [Reading.pending, hstream]
    exact hanswers.of_lt hsize.le

section

variable {β : Type} {decodeResponse : List UInt8 → β} {deadline : Bool}

theorem Conn.recv_answers {r : Reading Event} (h : r.Partial maxFrameLine) :
    (Conn.lines decodeResponse).Answers r.pending r.reader.size
        (Conn.recv decodeResponse deadline r) ∧
      (Conn.recv decodeResponse deadline r).2.Partial maxFrameLine := by
  fun_induction Conn.recv decodeResponse deadline r with
  | case1 r reader' hlate =>
    have hpassed : passed r.reader = some reader' := by
      split at hlate
      · exact hlate
      · cases hlate
    obtain ⟨hunread, hsize⟩ := passed_some hpassed
    exact ⟨⟨hsize, congrArg (r.partial_ ++ ·) hunread.symm⟩, h⟩
  | case2 r _ reader' hfill =>
    obtain ⟨_, _, _, hend⟩ := BufReader.fillBuf_ok SocketReader.lawful hfill
    have hpending : r.pending = r.partial_ := by rw [Reading.pending, hend rfl, List.append_nil]
    rw [hpending]
    exact ⟨⟨h.1, decide_eq_false (by simpa using h.2)⟩, h⟩
  | case3 r _ b bs reader' hfill chunk end_ take hexceeds =>
    refine ⟨?_, h⟩
    exact BufReader.round_refused (F := Conn.lines decodeResponse) rfl SocketReader.lawful hfill
      h.1 hexceeds
  | case4 r _ b bs reader' hfill chunk end_ take hfine partial' reader'' hsome =>
    obtain ⟨i, hfound⟩ := Option.isSome_iff_exists.mp hsome
    obtain ⟨hnot, hlength, htake, hstream⟩ :=
      BufReader.round_found SocketReader.lawful hfill h.1 hfound
    have htaken : take = i + 1 := by simp only [take, hfound, Option.elim_some]
    have hheld : partial' = r.partial_ ++ chunk.take i ++ [newline] := by
      simp only [partial', htaken]
      rw [htake, List.append_assoc]
    have hreader : reader'' = reader'.consume (i + 1) := congrArg reader'.consume htaken
    refine ⟨⟨?_, ?_⟩, List.not_mem_nil, Nat.zero_le _⟩
    · exact BufReader.size_round SocketReader.lawful hfill (taken_pos _)
    · rw [hheld, hreader]
      refine ⟨r.partial_ ++ chunk.take i, hnot, decide_eq_false ?_, rfl, hstream⟩
      rw [hlength]
      rw [htaken, ← Nat.add_assoc] at hfine
      exact hfine
  | case5 r _ b bs reader' hfill chunk end_ take hfine partial' reader'' hnone ih =>
    have hfound : end_ = none := Option.not_isSome_iff_eq_none.mp hnone
    obtain ⟨hnot, hstream⟩ := BufReader.round_more SocketReader.lawful hfill h.1 hfound
    have htaken : take = chunk.length := by simp only [take, hfound, Option.elim_none]
    have hheld : partial' = r.partial_ ++ chunk := by simp [partial', htaken]
    have hsize : (reader'.consume take).size < r.reader.size :=
      BufReader.size_round SocketReader.lawful hfill (taken_pos _)
    have hfits : (r.partial_ ++ chunk).length ≤ maxFrameLine := by
      rw [List.length_append, ← htaken]
      omega
    have hreader : reader'' = reader'.consume chunk.length := congrArg reader'.consume htaken
    rw [hheld, hreader] at ih ⊢
    obtain ⟨hanswers, hleft⟩ := ih ⟨hnot, hfits⟩
    refine ⟨?_, hleft⟩
    rw [Reading.pending, hstream]
    exact hanswers.of_lt (htaken ▸ hsize.le)
  | case6 r _ reader' hfill =>
    obtain ⟨hunread, hsize⟩ := BufReader.fillBuf_error SocketReader.lawful hfill
    exact ⟨⟨hsize, congrArg (r.partial_ ++ ·) hunread.symm⟩, h⟩
  | case7 r _ reader' hfill =>
    obtain ⟨hunread, hsize⟩ := BufReader.fillBuf_error SocketReader.lawful hfill
    exact ⟨⟨hsize, congrArg (r.partial_ ++ ·) hunread.symm⟩, h⟩
  | case8 r _ reader' hfill ih =>
    obtain ⟨hunread, hsize⟩ := BufReader.fillBuf_error SocketReader.lawful hfill
    obtain ⟨hanswers, hleft⟩ := ih h
    refine ⟨?_, hleft⟩
    rw [Reading.pending, ← hunread]
    exact hanswers.of_lt hsize.le

end

theorem Holder.lines_sound {Inv : Blocking → Prop}
    (h : ∀ reader reader' : Blocking, Inv reader → reader'.arrivals <:+ reader.arrivals →
      Inv reader') : Holder.lines.Sound Inv where
  answers _ _ _ := Holder.readLineFrom_answers List.not_mem_nil (Nat.zero_le _)
  kept _ reader hreader := h reader _ hreader Holder.readLineFrom_suffix

theorem Server.lines_sound : Server.lines.Sound (Reading.Partial maxLineBytes) where
  answers _ _ h := (Server.readLine_answers h).1
  kept _ _ h := (Server.readLine_answers h).2

theorem Conn.lines_sound {β : Type} (decodeResponse : List UInt8 → β) :
    (Conn.lines decodeResponse).Sound (Reading.Partial maxFrameLine) where
  answers _ _ h := (Conn.recv_answers h).1
  kept _ _ h := (Conn.recv_answers h).2

theorem Reading.Partial.fresh {ε : Type} {limit : Nat} (arrivals : List (Arrival UInt8 ε)) :
    (Reading.fresh arrivals).Partial limit := ⟨List.not_mem_nil, Nat.zero_le _⟩

/-- However the bytes arrive, with signals between them, deadlines on the daemon's side of the
holder link and reads that its server drops, each reader returns the lines of the whole stream. -/
theorem framing_exact {β : Type} (decodeResponse : List UInt8 → β) :
    (∀ arrivals, .event .late ∉ arrivals →
      Holder.lines.Exact (.fresh arrivals) (bytesOf arrivals)) ∧
    (∀ arrivals, Server.lines.Exact (.fresh arrivals) (bytesOf arrivals)) ∧
    ∀ arrivals, (Conn.lines decodeResponse).Exact (.fresh arrivals) (bytesOf arrivals) := by
  refine ⟨fun arrivals hintime => ?_, fun arrivals => ?_, fun arrivals => ?_⟩
  · have hsound : Holder.lines.Sound fun reader => .event .late ∉ reader.arrivals :=
      Holder.lines_sound fun _ _ h hsuffix hmem => h (hsuffix.mem hmem)
    apply hsound.exact _ hintime
    intro deadline reader reader' h hcall
    exact Holder.readLineFrom_ne_broken h (congrArg Prod.fst hcall)
  · apply Server.lines_sound.exact _ (Reading.Partial.fresh arrivals)
    intro _ r r' _ hcall
    exact Server.readLine_ne_broken r (congrArg Prod.fst hcall)
  · apply (Conn.lines_sound decodeResponse).exact _ (Reading.Partial.fresh arrivals)
    intro deadline r r' _ hcall
    exact Conn.recv_ne_broken decodeResponse deadline r (congrArg Prod.fst hcall)

theorem framing_exact_two_pieces :
    Holder.lines.Runs (fun _ => true)
      (.fresh [.bytes 97 [], .event .interrupted, .bytes 98 [10, 99]]) [[97, 98, 10]] false :=
  (((framing_exact id).1 _ (by decide)).runs _ _ _).mpr (by decide)

end Agend.Sockets
