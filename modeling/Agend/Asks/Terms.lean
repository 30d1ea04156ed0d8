import Agend.Asks.Steps

/-! The contract of the engine's programs for asks, and what each of their calls leaves behind. -/
namespace Agend.Asks

open Agend.Library Agend.Client Agend.Runtime Program

variable {encode : AskEntry → String} {w w' s : World} {t : Turn} {p : Pending} {a : Answer}
  {rest : List Pending} {new : NewMessage} {row : AskRow} {c : Call}

/-- What the program owes when it makes a call: threads are extended by one fitting entry; what is
handed over is the first answer that is not delivered, and not again once it was sent; and an answer
is delivered once its message is stored. -/
def Call.Due (encode : AskEntry → String) (w : World) (a : Answer) : Call → Prop
  | .saveAsk row => ∃ e, Extends w row e
  | .claimMessage new => ∃ t p, First encode w t p ∧ new = p.message ∧
      ((w.outside a.moves).claim new).1 ≠ .different
  | .deliver recipient new => ∃ t p, First encode w t p ∧ new = p.message ∧
      recipient = p.instanceId ∧
      ∃ m, w.messages.get p.id = some m ∧ m.new = new ∧ m.state ≠ .sent ∧ m.state ≠ .confirmed
  | .markAnswerSent seq => ∃ t p, First encode w t p ∧ p.seq = seq ∧ Stored w p
  | .publish thread => ∃ q ∈ w.asks.rows, q.thread = thread ∧
      ((∃ e, thread.entries.getLast? = some e ∧ e.isAnswer = true) →
        w.pendingAnswers encode = [])
  | _ => True

/-- The rest of the daemon leaves the answers on their way alone, and a new id is new. -/
structure Fair (encode : AskEntry → String) (w : World) (c : Call) (a : Answer) : Prop where
  moves : ∀ mv ∈ a.moves, mv.Foreign encode w
  newId : c = .newId → ∀ q ∈ w.asks.rows, q.id ≠ "A-" ++ a.text

def contract (encode : AskEntry → String) : Contract (interface encode) where
  safe := Sound encode
  assumes := Fair encode
  duty w c a := c.Due encode w a

theorem Fair.aside (h : Fair encode w c a) : Aside encode w (w.outside a.moves) :=
  aside_outside h.moves

theorem exec_cases (encode : AskEntry → String) (w : World) (a : Answer) (c : Call) :
    (∃ e, w.exec encode a c = (.error e, w.outside a.moves)) ∨
    w.exec encode a c = (w.outside a.moves).perform encode a c := by
  unfold World.exec
  cases a.fault with
  | none => exact .inr rfl
  | some reason =>
    by_cases hc : c.certain = true
    · exact .inr (if_pos hc)
    · exact .inl ⟨_, if_neg hc⟩

/-- The calls that change neither asks nor turns, nor make messages. -/
def Call.quiet : Call → Bool
  | .saveAsk _ | .claimMessage _ | .markAnswerSent _ => false
  | _ => true

theorem aside_perform (hc : c.quiet = true) : Aside encode w (w.perform encode a c).2 := by
  cases c with
  | saveAsk => cases hc
  | claimMessage => cases hc
  | markAnswerSent => cases hc
  | advanceMessage id next turn =>
    simp only [World.perform, World.advanceMessage]
    split
    · split
      · exact .refl
      · split <;> exact .refl
    · exact aside_advance
  | _ => exact .refl

theorem Fair.aside_exec (h : Fair encode w c a) (hc : c.quiet = true) :
    Aside encode w (w.exec encode a c).2 := by
  rcases exec_cases encode w a c with ⟨e, he⟩ | he
  · rw [he]
    exact h.aside
  · rw [he]
    exact h.aside.trans (aside_perform hc)

theorem First.aside (h : Aside encode w w') (ht : First encode w t p) : First encode w' t p where
  mem := h.turns ▸ ht.mem
  pending := ht.pending
  outgoing := (outgoing_of_eq h.asks h.turns).trans ht.outgoing
  before := h.turns ▸ ht.before

theorem Extends.aside {e : AskEntry} (h : Aside encode w w') (hx : Extends w row e) :
    Extends w' row e := by
  obtain ⟨hentries, hdialogue, howner⟩ := hx
  refine ⟨?_, hdialogue, h.asks ▸ howner⟩
  rw [World.entriesOf, h.asks]
  exact hentries

/-- A call that does its duty keeps the store sound, and threads only grow. -/
theorem Sound.exec (hw : Sound encode w) (ha : Fair encode w c a) (hd : c.Due encode w a) :
    Sound encode (w.exec encode a c).2 ∧ Grows encode w (w.exec encode a c).2 := by
  by_cases hc : c.quiet = true
  · have h := ha.aside_exec hc
    exact ⟨hw.aside h, .of_eq h.asks h.turns⟩
  · have haside := ha.aside
    have hw' := hw.aside haside
    have hgrows : Grows encode w (w.outside a.moves) := .of_eq haside.asks haside.turns
    rcases exec_cases encode w a c with ⟨e, he⟩ | he
    · rw [he]
      exact ⟨hw', hgrows⟩
    · rw [he]
      cases c with
      | saveAsk row =>
        obtain ⟨e, hx⟩ := hd
        have hx' := hx.aside haside
        exact ⟨hw'.saveAsk hx', hgrows.trans (hw'.grows_saveAsk hx')⟩
      | claimMessage new =>
        obtain ⟨t, p, ht, rfl, -⟩ := hd
        refine ⟨hw'.claim (ht.aside haside), hgrows.trans ?_⟩
        exact grows_claim
      | markAnswerSent seq => exact ⟨hw'.markAnswerSent, hgrows.trans grows_markAnswerSent⟩
      | _ => exact absurd rfl hc

end Agend.Asks
