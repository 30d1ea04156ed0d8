import Agend.Library.Lines

/-! Readers that return a line a call, from a stream that arrives in pieces, and what they return
by the lines of the whole stream. -/
namespace Agend.Library

section

variable {α β ι σ : Type*} [DecidableEq α]

/-- The lines up to the first that is too long, and whether one is. `exceeds` is also asked of the
text behind the last newline. -/
def framed (newline : α) (exceeds : List α → Bool → Bool) (stream : List α) : List (List α) × Bool :=
  let cut := cutLines newline [] stream
  let fine := cut.1.takeWhile fun line => !exceeds line true
  (fine, fine.length < cut.1.length || exceeds cut.2 false)

/-- Whether a text is longer than a limit, which counts `ending` more for its newline. -/
def tooLong (limit ending : Nat) (text : List α) (terminated : Bool) : Bool :=
  limit < text.length + if terminated then ending else 0

/-- What a call returns: a line, nothing yet, the end of the stream, that a line is too long, or
that the stream broke. -/
inductive Returned (β : Type*)
  | line (b : β)
  | again
  | ended
  | refused
  | broken
deriving DecidableEq

structure Framer (α β ι σ : Type*) where
  newline : α
  /-- Whether a text is too long, with its newline or as far as it has come. -/
  exceeds : List α → Bool → Bool
  deliver : List α → β
  /-- What has arrived and will arrive, but for the lines that were returned. -/
  pending : σ → List α
  size : σ → Nat
  call : ι → σ → Returned β × σ

namespace Framer

variable (F : Framer α β ι σ)

/-- A text without a newline that is too long, as a line or as the last of the stream. -/
def Refuses (stream : List α) : Prop :=
  (F.newline ∉ stream ∧ F.exceeds stream false = true) ∨
    ∃ text rest, F.newline ∉ text ∧ F.exceeds text true = true ∧ stream = text ++ F.newline :: rest

/-- What one call returns for the stream; `bound` is for the calls to come to an end. -/
def Answers (stream : List α) (bound : Nat) : Returned β × σ → Prop
  | (.line b, s') => F.size s' < bound ∧ ∃ text, F.newline ∉ text ∧ F.exceeds text true = false ∧
      b = F.deliver text ∧ stream = text ++ F.newline :: F.pending s'
  | (.again, s') => F.size s' < bound ∧ stream = F.pending s'
  | (.ended, _) => F.newline ∉ stream ∧ F.exceeds stream false = false
  | (.refused, _) => F.Refuses stream
  | (.broken, _) => True

structure Sound (Inv : σ → Prop) : Prop where
  answers : ∀ i s, Inv s → F.Answers (F.pending s) (F.size s) (F.call i s)
  kept : ∀ i s, Inv s → Inv (F.call i s).2

/-- Call after call up to the last: the lines, and whether one is too long. -/
inductive Runs : (Nat → ι) → σ → List β → Bool → Prop
  | line {inputs : Nat → ι} {s s' : σ} {b : β} {bs : List β} {last : Bool}
      (hcall : F.call (inputs 0) s = (.line b, s'))
      (h : Runs (fun n => inputs (n + 1)) s' bs last) : Runs inputs s (b :: bs) last
  | again {inputs : Nat → ι} {s s' : σ} {bs : List β} {last : Bool}
      (hcall : F.call (inputs 0) s = (.again, s'))
      (h : Runs (fun n => inputs (n + 1)) s' bs last) : Runs inputs s bs last
  | ended {inputs : Nat → ι} {s s' : σ} (hcall : F.call (inputs 0) s = (.ended, s')) :
      Runs inputs s [] false
  | refused {inputs : Nat → ι} {s s' : σ} (hcall : F.call (inputs 0) s = (.refused, s')) :
      Runs inputs s [] true

/-- Some calls, and the lines they returned. -/
inductive Calls : σ → List β → σ → Prop
  | refl (s : σ) : Calls s [] s
  | line {i : ι} {s s' s'' : σ} {b : β} {bs : List β} (hcall : F.call i s = (.line b, s'))
      (h : Calls s' bs s'') : Calls s (b :: bs) s''
  | again {i : ι} {s s' s'' : σ} {bs : List β} (hcall : F.call i s = (.again, s'))
      (h : Calls s' bs s'') : Calls s bs s''

/-- What the calls return for a stream. -/
def expected (stream : List α) : List β × Bool :=
  ((framed F.newline F.exceeds stream).1.map F.deliver, (framed F.newline F.exceeds stream).2)

/-- A run of calls returns what the stream says, up to the end or to a line that is too long. Before
that, the lines that were returned and what is still to come are the stream. -/
structure Exact (s : σ) (stream : List α) : Prop where
  runs : ∀ inputs bs last, F.Runs inputs s bs last ↔ F.expected stream = (bs, last)
  calls : ∀ bs s', F.Calls s bs s' → ∃ texts : List (List α), bs = texts.map F.deliver ∧
    texts <+: (framed F.newline F.exceeds stream).1 ∧
    stream = (texts.map (· ++ [F.newline])).flatten ++ F.pending s'

end Framer

variable {newline : α} {exceeds : List α → Bool → Bool} {text rest stream : List α}

theorem framed_of_not_mem (h : newline ∉ stream) :
    framed newline exceeds stream = ([], exceeds stream false) := by
  rw [framed, cutLines_of_not_mem h]
  rfl

theorem framed_line (h : newline ∉ text) (hfine : exceeds text true = false) :
    framed newline exceeds (text ++ newline :: rest) =
      (text :: (framed newline exceeds rest).1, (framed newline exceeds rest).2) := by
  have hkeep : (!exceeds text true) = true := by rw [hfine]; rfl
  unfold framed
  rw [cutLines_line h, List.nil_append]
  dsimp only
  rw [List.takeWhile_cons, if_pos hkeep]
  simp

theorem framed_exceeds (h : newline ∉ text) (hexceeds : exceeds text true = true) :
    framed newline exceeds (text ++ newline :: rest) = ([], true) := by
  have hstop : ¬(!exceeds text true) = true := by rw [hexceeds]; nofun
  unfold framed
  rw [cutLines_line h, List.nil_append]
  dsimp only
  rw [List.takeWhile_cons, if_neg hstop]
  simp

omit [DecidableEq α] in
/-- A text stays too long with whatever follows. -/
theorem tooLong_append {limit ending : Nat} {terminated : Bool}
    (h : tooLong limit ending text false = true) :
    tooLong limit ending (text ++ rest) terminated = true := by
  have hlength : limit < text.length + 0 := of_decide_eq_true h
  apply decide_eq_true
  rw [List.length_append]
  omega

namespace Framer

variable {F : Framer α β ι σ} {Inv : σ → Prop} {inputs : Nat → ι} {i : ι} {s s' : σ}
  {bs : List β} {last : Bool} {out : Returned β × σ} {bound bound' : Nat}

/-- A text that is too long before its newline has come. -/
theorem Refuses.of_start (hgrow : ∀ rest terminated, F.exceeds (text ++ rest) terminated = true)
    (hnot : F.newline ∉ text) : F.Refuses (text ++ rest) := by
  cases hfind : rest.findIdx? (· = F.newline) with
  | none =>
    left
    constructor
    · intro hmem
      have hrest := (List.mem_append.mp hmem).resolve_left hnot
      exact not_mem_of_findIdx? hfind hrest
    · exact hgrow rest false
  | some i =>
    obtain ⟨hbefore, hsplit⟩ := split_of_findIdx? hfind
    right
    refine ⟨text ++ rest.take i, rest.drop (i + 1), ?_, hgrow _ true, ?_⟩
    · intro hmem
      cases List.mem_append.mp hmem with
      | inl hmem => exact hnot hmem
      | inr hmem => exact hbefore hmem
    · rw [List.append_assoc, ← hsplit]

omit [DecidableEq α] in
/-- A loop goes on from a smaller state. -/
theorem Answers.of_lt (h : F.Answers stream bound out) (hlt : bound ≤ bound') :
    F.Answers stream bound' out := by
  obtain ⟨returned, s'⟩ := out
  cases returned with
  | line b => exact ⟨Nat.lt_of_lt_of_le h.1 hlt, h.2⟩
  | again => exact ⟨Nat.lt_of_lt_of_le h.1 hlt, h.2⟩
  | ended => exact h
  | refused => exact h
  | broken => exact h

omit [DecidableEq α] in
theorem Sound.called (h : F.Sound Inv) (hs : Inv s) (hcall : F.call i s = out) :
    F.Answers (F.pending s) (F.size s) out ∧ Inv out.2 := by
  subst hcall
  exact ⟨h.answers i s hs, h.kept i s hs⟩

theorem Sound.expected_line (h : F.Sound Inv) {b : β} (hs : Inv s)
    (hcall : F.call i s = (.line b, s')) :
    F.expected (F.pending s) =
      (b :: (F.expected (F.pending s')).1, (F.expected (F.pending s')).2) := by
  obtain ⟨⟨_, text, hnot, hfine, hb, hpending⟩, _⟩ := h.called hs hcall
  rw [expected, hpending, framed_line hnot hfine, hb]
  rfl

/-- The last call. -/
theorem Sound.expected_refused (h : F.Sound Inv) (hs : Inv s)
    (hcall : F.call i s = (.refused, s')) : F.expected (F.pending s) = ([], true) := by
  obtain ⟨hrefuses, _⟩ := h.called hs hcall
  cases hrefuses with
  | inl htail =>
    rw [expected, framed_of_not_mem htail.1, htail.2]
    rfl
  | inr hline =>
    obtain ⟨text, rest, hnot, hexceeds, hpending⟩ := hline
    rw [expected, hpending, framed_exceeds hnot hexceeds]
    rfl

theorem Sound.expected_ended (h : F.Sound Inv) (hs : Inv s)
    (hcall : F.call i s = (.ended, s')) : F.expected (F.pending s) = ([], false) := by
  obtain ⟨⟨hnot, hfine⟩, _⟩ := h.called hs hcall
  rw [expected, framed_of_not_mem hnot, hfine]
  rfl

theorem Sound.expected_of_runs (h : F.Sound Inv) (hs : Inv s)
    (hruns : F.Runs inputs s bs last) : F.expected (F.pending s) = (bs, last) := by
  induction hruns with
  | line hcall _ ih => rw [h.expected_line hs hcall, ih (h.called hs hcall).2]
  | again hcall _ ih =>
    obtain ⟨⟨_, hpending⟩, hs'⟩ := h.called hs hcall
    rw [hpending, ih hs']
  | ended hcall => exact h.expected_ended hs hcall
  | refused hcall => exact h.expected_refused hs hcall

omit [DecidableEq α] in
/-- The calls come to an end, on a stream that does not break. -/
theorem Sound.exists_runs (h : F.Sound Inv) (hwhole : ∀ i s s', Inv s → F.call i s ≠ (.broken, s'))
    (inputs : Nat → ι) (hs : Inv s) : ∃ bs last, F.Runs inputs s bs last := by
  induction hsize : F.size s using Nat.strongRecOn generalizing s inputs with
  | _ n ih =>
    subst hsize
    cases hcall : F.call (inputs 0) s with
    | mk returned s' =>
      cases returned with
      | line b =>
        obtain ⟨⟨hlt, _⟩, hs'⟩ := h.called hs hcall
        obtain ⟨bs, last, hruns⟩ := ih (F.size s') hlt (fun n => inputs (n + 1)) hs' rfl
        exact ⟨b :: bs, last, .line hcall hruns⟩
      | again =>
        obtain ⟨⟨hlt, _⟩, hs'⟩ := h.called hs hcall
        obtain ⟨bs, last, hruns⟩ := ih (F.size s') hlt (fun n => inputs (n + 1)) hs' rfl
        exact ⟨bs, last, .again hcall hruns⟩
      | ended => exact ⟨[], false, .ended hcall⟩
      | refused => exact ⟨[], true, .refused hcall⟩
      | broken => exact absurd hcall (hwhole (inputs 0) s s' hs)

/-- The calls return the lines of the stream, and nothing else. -/
theorem Sound.runs_iff (h : F.Sound Inv) (hwhole : ∀ i s s', Inv s → F.call i s ≠ (.broken, s'))
    (hs : Inv s) : F.Runs inputs s bs last ↔ F.expected (F.pending s) = (bs, last) := by
  constructor
  · exact h.expected_of_runs hs
  · intro heq
    obtain ⟨bs', last', hruns⟩ := h.exists_runs hwhole inputs hs
    have hsame := (h.expected_of_runs hs hruns).symm.trans heq
    cases hsame
    exact hruns

/-- Whatever calls there were, the lines that they returned and what is still to come are the
stream. -/
theorem Sound.calls (h : F.Sound Inv) (hs : Inv s) (hcalls : F.Calls s bs s') :
    ∃ texts : List (List α), bs = texts.map F.deliver ∧
      texts <+: (framed F.newline F.exceeds (F.pending s)).1 ∧
      F.pending s = (texts.map (· ++ [F.newline])).flatten ++ F.pending s' := by
  induction hcalls with
  | refl s => exact ⟨[], rfl, List.nil_prefix, rfl⟩
  | line hcall _ ih =>
    obtain ⟨⟨_, text, hnot, hfine, hb, hpending⟩, hs'⟩ := h.called hs hcall
    obtain ⟨texts, hbs, hprefix, hrest⟩ := ih hs'
    refine ⟨text :: texts, ?_, ?_, ?_⟩
    · rw [hb, hbs]
      rfl
    · rw [hpending, framed_line hnot hfine]
      exact List.cons_prefix_cons.mpr ⟨rfl, hprefix⟩
    · rw [hpending, hrest]
      simp
  | again hcall _ ih =>
    obtain ⟨⟨_, hpending⟩, hs'⟩ := h.called hs hcall
    obtain ⟨texts, hbs, hprefix, hrest⟩ := ih hs'
    rw [hpending]
    exact ⟨texts, hbs, hprefix, hrest⟩

theorem Sound.exact (h : F.Sound Inv) (hwhole : ∀ i s s', Inv s → F.call i s ≠ (.broken, s'))
    (hs : Inv s) : F.Exact s (F.pending s) where
  runs _ _ _ := h.runs_iff hwhole hs
  calls _ _ := h.calls hs

end Framer

end

end Agend.Library
