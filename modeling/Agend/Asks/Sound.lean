import Agend.Asks.Programs

/-! What holds of the stored asks, whatever the rest of the daemon does to the messages. -/
namespace Agend.Asks

open Agend.Library Agend.Client Agend.Runtime

variable {encode : AskEntry → String} {w w' : World} {t u : Turn} {p p' : Pending} {q : Ask}
  {id : String} {new : NewMessage} {row : AskRow} {e : AskEntry}

/-- The threads are dialogues, the turns are those of the threads, and a message under the id of an
answer is that answer. -/
structure Sound (encode : AskEntry → String) (w : World) : Prop where
  keyed : ∀ q ∈ w.asks.rows, q.thread.askId = q.id ∧ q.thread.taskId = q.taskId
  dialogue : ∀ q ∈ w.asks.rows, Dialogue q.thread.entries
  turns : ∀ id, w.turnsOf id = w.entriesOf id
  ordered : w.turns.Pairwise (·.seq < ·.seq)
  below : ∀ t ∈ w.turns, t.seq < w.nextSeq
  messages : ∀ m ∈ w.messages.rows, isAnswerId m.new.id = true → ∃ t ∈ w.turns,
    t.entry.isAnswer = true ∧ ∃ p, w.outgoing encode t = some p ∧ m.new = p.message

theorem entriesOf_of_get (h : w.asks.get id = some q) : w.entriesOf id = q.thread.entries := by
  rw [World.entriesOf, h]
  rfl

theorem entriesOf_of_none (h : w.asks.get id = none) : w.entriesOf id = [] := by
  rw [World.entriesOf, h]
  rfl

theorem mem_turnsOf (ht : t ∈ w.turns) : t.entry ∈ w.turnsOf t.askId :=
  List.mem_map_of_mem (List.mem_filter.mpr ⟨ht, by simp⟩)

theorem Sound.owned (hw : Sound encode w) (ht : t ∈ w.turns) :
    ∃ q, w.asks.get t.askId = some q := by
  cases hq : w.asks.get t.askId with
  | some q => exact ⟨q, rfl⟩
  | none =>
    have hmem := mem_turnsOf ht
    rw [hw.turns, entriesOf_of_none hq] at hmem
    cases hmem

/-! The ids of answers. -/

theorem answerId_inj {a b : String} {k l : Nat} (h : answerId a k = answerId b l) :
    a = b ∧ k = l := by
  obtain ⟨hask, hk⟩ := Engine.slash_inj_last (Engine.plain_toString k) (Engine.plain_toString l) h
  exact ⟨(String.append_right_inj "ask:").mp hask, Engine.toString_nat_inj hk⟩

theorem isAnswerId_answerId (a : String) (k : Nat) : isAnswerId (answerId a k) = true := by
  unfold isAnswerId answerId
  rw [List.isPrefixOf_iff_prefix]
  simp [String.toList_append, List.append_assoc]

theorem outgoing_eq_some (h : w.outgoing encode t = some p) : ∃ q, w.asks.get t.askId = some q ∧
    p = ⟨t.seq, answerId t.askId (w.position t), q.instanceId, q.taskId, encode t.entry⟩ := by
  obtain ⟨q, hq, rfl⟩ := Option.map_eq_some_iff.mp h
  exact ⟨q, hq, rfl⟩

theorem isAnswerId_outgoing (h : w.outgoing encode t = some p) : isAnswerId p.id = true := by
  obtain ⟨q, -, rfl⟩ := outgoing_eq_some h
  exact isAnswerId_answerId _ _

theorem seq_outgoing (h : w.outgoing encode t = some p) : p.seq = t.seq := by
  obtain ⟨q, -, rfl⟩ := outgoing_eq_some h
  rfl

theorem Sound.outgoing (hw : Sound encode w) (ht : t ∈ w.turns) :
    ∃ p, w.outgoing encode t = some p := by
  obtain ⟨q, hq⟩ := hw.owned ht
  exact ⟨_, by rw [World.outgoing, hq]; rfl⟩

theorem countP_lt {α : Type} {p q : α → Bool} {l : List α} (himp : ∀ x ∈ l, p x → q x)
    {a : α} (ha : a ∈ l) (hq : q a = true) (hp : p a = false) : l.countP p < l.countP q := by
  obtain ⟨s, s', rfl⟩ := List.append_of_mem ha
  have hs := List.countP_mono_left (l := s) fun x hx =>
    himp x (List.mem_append_left _ hx)
  have hs' := List.countP_mono_left (l := s') fun x hx =>
    himp x (List.mem_append_right _ (List.mem_cons_of_mem _ hx))
  simp only [List.countP_append, List.countP_cons, hq, hp, if_true, Bool.false_eq_true, if_false]
  omega

theorem position_lt (hu : u ∈ w.turns) (hask : t.askId = u.askId) (hlt : t.seq < u.seq) :
    w.position t < w.position u := by
  refine countP_lt (fun x _ hx => ?_) hu (by simp) (by simp; omega)
  simp only [Bool.and_eq_true, decide_eq_true_eq] at hx ⊢
  exact ⟨hx.1.trans hask, by omega⟩

theorem Sound.eq_of_seq_eq (hw : Sound encode w) (ht : t ∈ w.turns) (hu : u ∈ w.turns)
    (h : t.seq = u.seq) : t = u := by
  have hne : w.turns.Pairwise fun a b => a.seq ≠ b.seq := hw.ordered.imp fun hab => by omega
  have hnodup : (w.turns.map (·.seq)).Nodup := List.pairwise_map.mpr hne
  exact List.inj_on_of_nodup_map hnodup ht hu h

/-- The message id of an answer tells which answer it is. -/
theorem Sound.outgoing_inj (hw : Sound encode w) (ht : t ∈ w.turns) (hu : u ∈ w.turns)
    (hp : w.outgoing encode t = some p) (hp' : w.outgoing encode u = some p') (h : p.id = p'.id) :
    t = u := by
  obtain ⟨q, -, rfl⟩ := outgoing_eq_some hp
  obtain ⟨q', -, rfl⟩ := outgoing_eq_some hp'
  obtain ⟨hask, hposition⟩ := answerId_inj h
  rcases Nat.lt_trichotomy t.seq u.seq with hlt | heq | hgt
  · have := position_lt hu hask hlt
    omega
  · exact hw.eq_of_seq_eq ht hu heq
  · have := position_lt ht hask.symm hgt
    omega

/-- A message under the id of an answer has its recipient, task and body. -/
theorem Sound.message_of_answer (hw : Sound encode w) (ht : t ∈ w.turns)
    (hp : w.outgoing encode t = some p) {m : Posted} (hm : w.messages.get p.id = some m) :
    m.new = p.message := by
  obtain ⟨hmem, hid⟩ := Table.get_eq_some.mp hm
  have hans : isAnswerId m.new.id = true := by
    change isAnswerId m.id = true
    rw [hid]
    exact isAnswerId_outgoing hp
  obtain ⟨u, hu, -, p', hp', hnew⟩ := hw.messages m hmem hans
  have hids : p.id = p'.id := by
    rw [← hid]
    change m.new.id = p'.message.id
    rw [hnew]
  obtain rfl := hw.outgoing_inj ht hu hp hp' hids
  rw [hp] at hp'
  cases hp'
  exact hnew

/-- A claim for an answer leaves its message stored, and finds nothing else under its id. -/
theorem Sound.claim_answer (hw : Sound encode w) (ht : t ∈ w.turns)
    (hp : w.outgoing encode t = some p) : (w.claim p.message).2.asks = w.asks ∧
      (w.claim p.message).2.turns = w.turns ∧
      ∃ m, (w.claim p.message).2.messages.get p.id = some m ∧ m.new = p.message ∧
        ((w.claim p.message).1 = .inserted ∧ m.state = .queued ∨
          (w.claim p.message).1 = .existing m.state) := by
  unfold World.claim
  split
  · rename_i old hold
    have hnew := hw.message_of_answer ht hp hold
    exact ⟨rfl, rfl, old, hold, hnew, .inr (if_pos hnew)⟩
  · exact ⟨rfl, rfl, ⟨p.message, .queued⟩, Table.get_put_self, rfl, .inl ⟨rfl, rfl⟩⟩

/-! What is pending. -/

/-- The answer that is handed over next: what was answered before it is delivered. -/
structure First (encode : AskEntry → String) (w : World) (t : Turn) (p : Pending) : Prop where
  mem : t ∈ w.turns
  pending : t.isPending = true
  outgoing : w.outgoing encode t = some p
  before : ∀ u ∈ w.turns, u.entry.isAnswer = true → u.seq < t.seq → u.delivered = true

end Agend.Asks
